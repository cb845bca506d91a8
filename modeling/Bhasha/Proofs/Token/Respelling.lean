import Bhasha.Proofs.Token.Spelling
import Mathlib.Data.List.Forall2

/-!
Keywords in another spelling.

`Respells` says of a text that it is another one with some of the keywords in another spelling,
and nothing else changed. The tokens of the two texts are then alike: they are of the same kinds,
and where the literal of a token means something it is the same.

To see where a lexeme ends the scanner looks at the character behind it, and that can be the first
of a keyword. But all spellings of keywords are words, and what matters about a character that
starts a word is only that it does (`SameStart`).
-/

namespace Bhasha

/-- The tokens mean the same: they are of one kind, and if the kind does not say all, they have the
same literal. -/
structure Token.Alike (t t' : Token) : Prop where
  kind : t'.kind = t.kind
  literal : t.kind = .ident ∨ t.kind = .int ∨ t.kind = .str → t'.literal = t.literal

lemma Token.Alike.refl (t : Token) : t.Alike t :=
  ⟨rfl, fun _ => rfl⟩

/-! ## The character behind a lexeme -/

lemma isWordPart_of_isWordStart {c : Char} (h : isWordStart c) : isWordPart c = true := by
  rw [isWordPart, h, Bool.true_or]

lemma takeWhile_append_eq_left_iff {p : Char → Bool} {ds cs : List Char} :
    (ds ++ cs).takeWhile p = ds ↔ (∀ d ∈ ds, p d) ∧ cs.takeWhile p = [] := by
  constructor
  · intro h
    have hall : ∀ d ∈ ds, p d := by
      intro d hd
      rw [← h] at hd
      exact List.mem_takeWhile_imp hd
    rw [List.takeWhile_append_of_pos hall, List.append_right_eq_self] at h
    exact ⟨hall, h⟩
  · rintro ⟨hall, hcs⟩
    rw [List.takeWhile_append_of_pos hall, hcs, List.append_nil]

lemma boundary_iff {cs : List Char} : Boundary cs ↔ cs.takeWhile isWordPart = [] := by
  refine ⟨Boundary.takeWhile, fun h => ?_⟩
  cases cs with
  | nil => trivial
  | cons c cs =>
    show isWordPart c = false
    rw [Bool.eq_false_iff]
    intro hc
    rw [List.takeWhile_cons_of_pos hc] at h
    cases h

/-- The texts start with the same character, or each with one that starts a word. -/
def SameStart : List Char → List Char → Prop
  | [], [] => True
  | c :: _, c' :: _ => c' = c ∨ isWordStart c ∧ isWordStart c'
  | _, _ => False

namespace SameStart

variable {cs cs' ds : List Char}

lemma refl (cs : List Char) : SameStart cs cs := by
  cases cs with
  | nil => trivial
  | cons c cs => exact Or.inl rfl

lemma append (h : SameStart cs cs') (ds : List Char) : SameStart (ds ++ cs) (ds ++ cs') := by
  cases ds with
  | nil => exact h
  | cons d ds => exact Or.inl rfl

lemma eq_nil (h : SameStart [] cs') : cs' = [] := by
  cases cs' with
  | nil => rfl
  | cons c cs => exact h.elim

/-- A run that the first text does not go on with does not go on with the second either, if all
characters that start words are treated alike. -/
lemma takeWhile_eq_nil {p : Char → Bool} {b : Bool} (hp : ∀ c, isWordStart c → p c = b)
    (h : SameStart cs cs') (hcs : cs.takeWhile p = []) : cs'.takeWhile p = [] := by
  match cs, cs', h with
  | [], [], _ => rfl
  | c :: cs, c' :: cs', h =>
    have hc : p c = false := by
      rw [Bool.eq_false_iff]
      intro hpc
      rw [List.takeWhile_cons_of_pos hpc] at hcs
      cases hcs
    have hc' : p c' = false := by
      rcases h with rfl | ⟨hstart, hstart'⟩
      · exact hc
      · rw [hp c' hstart', ← hp c hstart, hc]
    exact List.takeWhile_cons_of_neg (by rw [hc']; decide)

lemma takeWhile_append_eq {p : Char → Bool} {b : Bool} (hp : ∀ c, isWordStart c → p c = b)
    (h : SameStart cs cs') (hds : (ds ++ cs).takeWhile p = ds) :
    (ds ++ cs').takeWhile p = ds := by
  obtain ⟨hall, hcs⟩ := takeWhile_append_eq_left_iff.1 hds
  exact takeWhile_append_eq_left_iff.2 ⟨hall, h.takeWhile_eq_nil hp hcs⟩

lemma boundary (h : SameStart cs cs') (hcs : Boundary cs) : Boundary cs' := by
  rw [boundary_iff] at hcs ⊢
  exact h.takeWhile_eq_nil (fun c => isWordPart_of_isWordStart) hcs

lemma head?_beq_equals (h : SameStart cs cs') :
    (cs'.head? == some '=') = (cs.head? == some '=') := by
  match cs, cs', h with
  | [], [], _ => rfl
  | c :: cs, c' :: cs', h =>
    rcases h with rfl | ⟨hc, hc'⟩
    · rfl
    · have hne : ∀ d, isWordStart d → (some d == some '=') = false := by
        intro d hd
        rw [beq_eq_false_iff_ne]
        rintro ⟨⟩
        cases hd
      exact (hne c' hc').trans (hne c hc).symm

end SameStart

namespace Lexeme

variable {c : Char} {ds rest rest' : List Char}

lemma sign_congr (c : Char) (h : SameStart rest rest') : sign c rest' = sign c rest := by
  unfold sign
  rw [h.head?_beq_equals]

lemma quoted_congr (h : SameStart rest rest') (hds : quoted (ds ++ rest) = ds) :
    quoted (ds ++ rest') = ds := by
  by_cases hmem : '"' ∈ ds
  · -- the string is closed, and nothing behind it matters
    obtain ⟨us, vs, rfl, hus⟩ := List.eq_append_cons_of_mem hmem
    have hus' : ∀ u ∈ us, (u != '"') = true :=
      fun u hu => bne_iff_ne.2 fun heq => hus (heq ▸ hu)
    have hquoted : ∀ ws, quoted (us ++ '"' :: vs ++ ws) = us ++ ['"'] := by
      intro ws
      rw [List.append_assoc, quoted, List.takeWhile_append_of_pos hus',
        List.dropWhile_append_of_pos hus']
      simp
    rw [hquoted] at hds ⊢
    exact hds
  · -- the string is not closed, so nothing is behind it
    have hds' : ∀ d ∈ ds, (d != '"') = true :=
      fun d hd => bne_iff_ne.2 fun heq => hmem (heq ▸ hd)
    have hrest : rest = [] := by
      rw [quoted, List.takeWhile_append_of_pos hds', List.dropWhile_append_of_pos hds',
        List.append_assoc, List.append_right_eq_self] at hds
      cases rest with
      | nil => rfl
      | cons r rest =>
        by_cases hr : (r != '"') = true <;> simp [hr] at hds
    subst hrest
    rw [h.eq_nil]
    exact hds

/-- What stands behind the first lexeme can be changed, if it starts in the same way. -/
lemma first_congr (h : SameStart rest rest') (htext : (first c (ds ++ rest)).text = c :: ds) :
    first c (ds ++ rest') = first c (ds ++ rest) := by
  by_cases hword : isWordStart c
  · rw [first, if_pos hword] at htext ⊢
    have htake := (List.cons.inj htext).2
    rw [first, if_pos hword, htake,
      h.takeWhile_append_eq (fun d => isWordPart_of_isWordStart) htake]
  · rw [first, if_neg hword] at htext ⊢
    rw [first, if_neg hword]
    by_cases hdigit : c.isDigit
    · rw [if_pos hdigit] at htext ⊢
      have htake := (List.cons.inj htext).2
      rw [if_pos hdigit, htake, h.takeWhile_append_eq (b := false) ?_ htake]
      -- unlike a word, a number ends before any character that starts a word
      intro d hd
      rw [Bool.eq_false_iff]
      intro hdd
      rw [isWordStart_of_isDigit hdd] at hd
      cases hd
    · rw [if_neg hdigit] at htext ⊢
      rw [if_neg hdigit]
      by_cases hquote : (c == '"') = true
      · rw [if_pos hquote] at htext ⊢
        have hquoted := (List.cons.inj htext).2
        rw [if_pos hquote, hquoted, quoted_congr h hquoted]
      · rw [if_neg hquote, if_neg hquote, sign_congr c (h.append ds)]

end Lexeme

/-! ## The pieces of a text -/

namespace Scanner

/-- The scanner skips the blanks, and the lexeme that it then cuts leaves the rest. -/
structure Cuts (s : Scanner) (blanks : List Char) (c : Char) (ds rest : List Char) : Prop where
  text : s.rest = blanks ++ c :: (ds ++ rest)
  blank : ∀ b ∈ blanks, isBlank b
  start : isBlank c = false
  lexeme : (Lexeme.first c (ds ++ rest)).text = c :: ds

variable {s : Scanner} {blanks : List Char} {c : Char} {ds rest : List Char}

lemma Cuts.nextToken_eq (h : s.Cuts blanks c ds rest) :
    s.nextToken =
      (⟨(Lexeme.first c (ds ++ rest)).kind, (Lexeme.first c (ds ++ rest)).literal,
          s.line + lineFeeds blanks⟩,
        ⟨rest, s.line + lineFeeds blanks + lineFeeds (c :: ds), s.finished⟩) := by
  obtain ⟨text, line, finished⟩ := s
  obtain rfl : text = blanks ++ c :: (ds ++ rest) := h.text
  have hdrop : (c :: (ds ++ rest)).drop (c :: ds).length = rest := by simp
  rw [nextToken_append h.blank, nextToken_cons h.start, h.lexeme, hdrop]

/-- Every token but the end token is cut so. -/
lemma exists_cuts (h : s.nextToken.1.kind ≠ .eof) :
    ∃ blanks c ds rest, s.Cuts blanks c ds rest := by
  have hsplit : s.rest.takeWhile isBlank ++ s.rest.dropWhile isBlank = s.rest :=
    List.takeWhile_append_dropWhile
  cases hdrop : s.rest.dropWhile isBlank with
  | nil =>
    refine absurd ?_ h
    rw [nextToken]
    simp only [skipBlanks, hdrop]
  | cons c cs =>
    have hc : isBlank c = false := by
      have hhead := List.head?_dropWhile_not isBlank s.rest
      rwa [hdrop, List.head?_cons] at hhead
    obtain ⟨rest, hrest⟩ := Lexeme.first_text_isPrefix c cs
    obtain ⟨ds, hds⟩ : ∃ ds, (Lexeme.first c cs).text = c :: ds := by
      cases htext : (Lexeme.first c cs).text with
      | nil => exact absurd htext (Lexeme.first_text_ne_nil c cs)
      | cons d ds =>
        rw [htext] at hrest
        exact ⟨ds, by rw [(List.cons.inj hrest).1]⟩
    rw [hds] at hrest
    obtain rfl : ds ++ rest = cs := (List.cons.inj hrest).2
    exact ⟨s.rest.takeWhile isBlank, c, ds, rest, by rw [← hdrop, hsplit],
      fun b hb => List.mem_takeWhile_imp hb, hc, hds⟩

/-- The same lexeme before a rest that starts in the same way. -/
lemma Cuts.congr (h : s.Cuts blanks c ds rest) {rest' : List Char} (hrest : SameStart rest rest') :
    Cuts ⟨blanks ++ c :: (ds ++ rest'), s.line, s.finished⟩ blanks c ds rest' :=
  ⟨rfl, h.blank, h.start, by rw [Lexeme.first_congr hrest h.lexeme, h.lexeme]⟩

end Scanner

/-! ## Spellings of a keyword -/

lemma lineFeeds_eq_zero_of_isWordPart {w : List Char} (hw : ∀ c ∈ w, isWordPart c) :
    lineFeeds w = 0 := by
  rw [lineFeeds, List.count_eq_zero]
  intro hmem
  cases hw _ hmem

lemma IsWord.lineFeeds_eq_zero {w : List Char} (hw : IsWord w) : lineFeeds w = 0 := by
  obtain ⟨c, ds, rfl, hc, hds⟩ := hw
  exact lineFeeds_eq_zero_of_isWordPart
    (List.forall_mem_cons.2 ⟨isWordPart_of_isWordStart hc, hds⟩)

lemma Kind.isWord_of_mem_keywords {word : String} {k : Kind} (h : (word, k) ∈ keywords) :
    IsWord word.toList ∧ ofWord word = k ∧ k.isWord ∧ k ≠ .ident := by
  have hall : ∀ entry ∈ keywords, entry.1.toList.head?.any isWordStart ∧
      entry.1.toList.tail.all isWordPart ∧ ofWord entry.1 = entry.2 ∧
        entry.2.isWord ∧ entry.2 ≠ .ident := by
    decide +kernel
  obtain ⟨hhead, htail, hkind, hrest⟩ := hall _ h
  obtain ⟨c, hc, hstart⟩ := (Option.any_eq_true _ _).1 hhead
  exact ⟨⟨c, _, List.eq_cons_of_mem_head? hc, hstart, List.all_eq_true.1 htail⟩, hkind, hrest⟩

namespace Scanner

/-- The text before the scanner, and that text with some of its keywords in another spelling. -/
inductive Respells : Scanner → List Char → Prop
  /-- From here on nothing is changed. -/
  | rest {s : Scanner} : Respells s s.rest
  /-- A token and the blanks before it stay as they are. -/
  | keep {s : Scanner} {piece rest' : List Char} :
      s.nextToken.1.kind ≠ .eof → s.rest = piece ++ s.nextToken.2.rest →
      Respells s.nextToken.2 rest' → Respells s (piece ++ rest')
  /-- A word takes the place of another that spells the same keyword. -/
  | replace {s : Scanner} {blanks rest' : List Char} {word : String} :
      s.rest = blanks ++ (s.nextToken.1.literal.toList ++ s.nextToken.2.rest) →
      (word, s.nextToken.1.kind) ∈ Kind.keywords →
      Respells s.nextToken.2 rest' → Respells s (blanks ++ (word.toList ++ rest'))

variable {s : Scanner} {blanks w rest text' : List Char}

lemma nextToken_word (hblanks : ∀ b ∈ blanks, isBlank b) (hw : IsWord w) (hrest : Boundary rest)
    (line : Nat) (finished : Bool) :
    nextToken ⟨blanks ++ (w ++ rest), line, finished⟩ =
      (⟨Kind.ofWord (String.ofList w), String.ofList w, line + lineFeeds blanks⟩,
        ⟨rest, line + lineFeeds blanks, finished⟩) := by
  have hfeeds := hw.lineFeeds_eq_zero
  obtain ⟨c, ds, rfl, hc, hds⟩ := hw
  have hfirst := Lexeme.first_word hc hds hrest
  have hcuts : Cuts ⟨blanks ++ c :: (ds ++ rest), line, finished⟩ blanks c ds rest :=
    ⟨rfl, hblanks, isBlank_of_isWordStart hc, by rw [hfirst]⟩
  rw [List.cons_append, hcuts.nextToken_eq, hfirst, hfeeds,
    Lexeme.literal_of_ne_str (Kind.ofWord_ne _ rfl)]
  rfl

/-- The literal of a word stands in the text, and behind it the word does not go on. -/
lemma exists_word (hk : s.nextToken.1.kind.isWord) :
    ∃ blanks, (∀ b ∈ blanks, isBlank b) ∧
      s.rest = blanks ++ (s.nextToken.1.literal.toList ++ s.nextToken.2.rest) ∧
        Boundary s.nextToken.2.rest := by
  obtain ⟨blanks, c, ds, rest, hcuts⟩ := exists_cuts (Kind.ne_of_isWord hk rfl)
  have hword := (s.proper_nextToken.word hk).1
  rw [hcuts.nextToken_eq] at hk hword ⊢
  dsimp only at hk hword ⊢
  rw [Lexeme.literal_of_ne_str (Kind.ne_of_isWord hk rfl), hcuts.lexeme,
    String.toList_ofList] at hword ⊢
  have hc : isWordStart c := by
    obtain ⟨c', ds', heq, hc', -⟩ := hword
    rwa [(List.cons.inj heq).1]
  have htake := hcuts.lexeme
  rw [Lexeme.first, if_pos hc] at htake
  exact ⟨blanks, hcuts.blank, hcuts.text,
    boundary_iff.2 (takeWhile_append_eq_left_iff.1 (List.cons.inj htake).2).2⟩

/-- One token that is alike, and then tokens that are alike. -/
lemma forall₂_alike_tokens {s s' : Scanner} (hs : s.nextToken.1.kind ≠ .eof)
    (hfirst : s.nextToken.1.Alike s'.nextToken.1)
    (hrest : List.Forall₂ Token.Alike s.nextToken.2.tokens.1 s'.nextToken.2.tokens.1) :
    List.Forall₂ Token.Alike s.tokens.1 s'.tokens.1 := by
  have hs' : s'.nextToken.1.kind ≠ .eof := by
    rw [hfirst.kind]
    exact hs
  rw [tokens_of_ne_eof hs, tokens_of_ne_eof hs']
  exact .cons hfirst hrest

/-- A token that is kept is cut as before. -/
lemma nextToken_keep (hkind : s.nextToken.1.kind ≠ .eof) {piece rest' : List Char}
    (hpiece : s.rest = piece ++ s.nextToken.2.rest) (hstart : SameStart s.nextToken.2.rest rest') :
    piece ≠ [] ∧ nextToken ⟨piece ++ rest', s.line, s.finished⟩ =
      (s.nextToken.1, ⟨rest', s.nextToken.2.line, s.nextToken.2.finished⟩) := by
  obtain ⟨blanks, c, ds, rest, hcuts⟩ := exists_cuts hkind
  rw [hcuts.nextToken_eq] at hpiece hstart ⊢
  obtain rfl : piece = blanks ++ c :: ds := by
    refine List.append_cancel_right (hpiece.symm.trans ?_)
    rw [hcuts.text, List.append_assoc, List.cons_append]
  refine ⟨by simp, ?_⟩
  have hnext := (hcuts.congr hstart).nextToken_eq
  rw [Lexeme.first_congr hstart hcuts.lexeme] at hnext
  rw [List.append_assoc, List.cons_append, hnext]

/-- A keyword that is replaced is cut as the other word. -/
lemma nextToken_replace {rest' : List Char} {word : String}
    (htext : s.rest = blanks ++ (s.nextToken.1.literal.toList ++ s.nextToken.2.rest))
    (hword : (word, s.nextToken.1.kind) ∈ Kind.keywords)
    (hstart : SameStart s.nextToken.2.rest rest') :
    nextToken ⟨blanks ++ (word.toList ++ rest'), s.line, s.finished⟩ =
      (⟨s.nextToken.1.kind, word, s.nextToken.1.line⟩,
        ⟨rest', s.nextToken.2.line, s.nextToken.2.finished⟩) := by
  obtain ⟨hw, hkind, hk, -⟩ := Kind.isWord_of_mem_keywords hword
  obtain ⟨blanks', hblanks, htext', hrest⟩ := exists_word hk
  obtain rfl : blanks = blanks' := List.append_cancel_right (htext.symm.trans htext')
  have hs : s = ⟨blanks ++ (s.nextToken.1.literal.toList ++ s.nextToken.2.rest), s.line,
      s.finished⟩ := by
    rw [← htext]
  have hold := nextToken_word hblanks (s.proper_nextToken.word hk).1 hrest s.line s.finished
  rw [← hs] at hold
  have hline : s.nextToken.1.line = s.line + lineFeeds blanks := congrArg (·.1.line) hold
  have hline' : s.nextToken.2.line = s.line + lineFeeds blanks := congrArg (·.2.line) hold
  have hfinished : s.nextToken.2.finished = s.finished := congrArg (·.2.finished) hold
  rw [nextToken_word hblanks hw (hstart.boundary hrest), String.ofList_toList, hkind, hline, hline',
    hfinished]

lemma Respells.sameStart (h : Respells s text') : SameStart s.rest text' := by
  induction h with
  | rest => exact .refl _
  | @keep s piece rest' hkind hpiece _ ih =>
    obtain ⟨hne, -⟩ := nextToken_keep hkind hpiece ih
    obtain ⟨c, cs, rfl⟩ := List.exists_cons_of_ne_nil hne
    rw [hpiece]
    exact Or.inl rfl
  | @replace s blanks rest' word htext hword _ ih =>
    obtain ⟨⟨c', ds', heq', hc', -⟩, -, hk, -⟩ := Kind.isWord_of_mem_keywords hword
    obtain ⟨c, ds, heq, hc, -⟩ := (s.proper_nextToken.word hk).1
    rw [htext, heq, heq']
    refine SameStart.append ?_ blanks
    exact Or.inr ⟨hc, hc'⟩

/-- The tokens of a text with other spellings are alike. -/
lemma Respells.alike (h : Respells s text') :
    List.Forall₂ Token.Alike s.tokens.1 (tokens ⟨text', s.line, s.finished⟩).1 := by
  induction h with
  | rest => exact List.forall₂_same.2 fun t _ => .refl t
  | @keep s piece rest' hkind hpiece hrespells ih =>
    obtain ⟨-, hnext⟩ := nextToken_keep hkind hpiece hrespells.sameStart
    refine forall₂_alike_tokens hkind ?_ ?_
    · rw [hnext]
      exact .refl _
    · rw [hnext]
      exact ih
  | @replace s blanks rest' word htext hword hrespells ih =>
    obtain ⟨-, -, hk, hident⟩ := Kind.isWord_of_mem_keywords hword
    have hnext := nextToken_replace htext hword hrespells.sameStart
    refine forall₂_alike_tokens (Kind.ne_of_isWord hk rfl) ?_ ?_
    · rw [hnext]
      refine ⟨rfl, fun hmeans => ?_⟩
      rcases hmeans with h | h | h
      · exact absurd h hident
      · exact absurd h (Kind.ne_of_isWord hk rfl)
      · exact absurd h (Kind.ne_of_isWord hk rfl)
    · rw [hnext]
      exact ih

end Scanner

end Bhasha
