import Bhasha.Proofs.Token.Tiling

/-!
Tokens written out with blanks between them.

A token is written as its literal, and a string as its literal between quotation marks. Written out
one after another, with blanks between any two of them, the tokens of a text are scanned back as
they were, but for their lines. With a blank behind it no token can go on into the next one, and
none can stop short: a word and a number end before a blank, `=` and `!` meet no equals sign,
a string is closed by its own mark even if it was not closed in the text it comes from, and a
character that starts no lexeme in one text starts none in any other.
-/

namespace Bhasha

/-- The token as it is written in a text. -/
def Token.written (t : Token) : List Char :=
  if t.kind = .str then '"' :: (t.literal.toList ++ ['"']) else t.literal.toList

/-- What a token says, apart from where it stands. -/
def Token.content (t : Token) : Kind × String :=
  (t.kind, t.literal)

/-- Tokens written out one after another, each behind its gap. -/
def writtenOut (gaps : List (List Char)) (tokens : List Token) : List Char :=
  (List.zipWith (fun gap t => gap ++ t.written) gaps tokens).flatten

/-- The text is at its end or goes on with a blank. -/
def BlankNext : List Char → Prop
  | [] => True
  | c :: _ => isBlank c

namespace BlankNext

variable {cs ds : List Char}

lemma of_forall (h : ∀ c ∈ cs, isBlank c) : BlankNext cs := by
  cases cs with
  | nil => trivial
  | cons c cs => exact h c List.mem_cons_self

lemma append_of_ne_nil (hne : cs ≠ []) (h : ∀ c ∈ cs, isBlank c) : BlankNext (cs ++ ds) := by
  obtain ⟨c, cs, rfl⟩ := List.exists_cons_of_ne_nil hne
  exact h c List.mem_cons_self

lemma boundary (h : BlankNext cs) : Boundary cs := by
  cases cs with
  | nil => trivial
  | cons c cs =>
    have hblank : isBlank c = true := h
    show isWordPart c = false
    rw [Bool.eq_false_iff]
    intro hpart
    rcases Bool.or_eq_true_iff.1 hpart with hstart | hdigit
    · rw [isBlank_of_isWordStart hstart] at hblank
      cases hblank
    · rw [isBlank_of_isDigit hdigit] at hblank
      cases hblank

lemma noEquals (h : BlankNext cs) : NoEquals cs := by
  intro hhead
  obtain ⟨ds, rfl⟩ := List.head?_eq_some_iff.1 hhead
  cases h

end BlankNext

/-! ## Illegal characters -/

namespace Lexeme

variable {c : Char} {cs : List Char}

lemma sign_of_illegal (h : (sign c cs).kind = .illegal) (ds : List Char) :
    sign c ds = ⟨.illegal, [c]⟩ := by
  unfold sign at h ⊢
  dsimp only at h ⊢
  split at h <;> first
    | rfl
    | cases h
    | (split at h <;> cases h)

/-- A character that starts no lexeme starts none before any other text. -/
lemma first_of_illegal (h : (first c cs).kind = .illegal) (ds : List Char) :
    first c ds = ⟨.illegal, [c]⟩ := by
  unfold first at h ⊢
  split at h
  · exact absurd h (Kind.ofWord_ne _ rfl)
  · rename_i hword
    rw [if_neg hword]
    split at h
    · cases h
    · rename_i hdigit
      rw [if_neg hdigit]
      split at h
      · cases h
      · rename_i hquote
        rw [if_neg hquote]
        exact sign_of_illegal h ds

end Lexeme

/-! ## One token -/

namespace Scanner

variable {s : Scanner} {t : Token}

lemma tokens_of_blanks (h : ∀ b ∈ s.rest, isBlank b) : s.tokens.1 = [] := by
  have hkind : s.nextToken.1.kind = .eof := by
    rw [nextToken]
    simp only [skipBlanks, List.dropWhile_eq_nil_iff.2 h]
  rw [tokens_of_eof hkind]

/-- Every token of a text was cut somewhere. -/
lemma exists_nextToken_of_mem_tokens (h : t ∈ s.tokens.1) :
    ∃ s' : Scanner, s'.nextToken.1 = t ∧ t.kind ≠ .eof := by
  induction hn : s.rest.length using Nat.strong_induction_on generalizing s with
  | _ n ih =>
    by_cases hkind : s.nextToken.1.kind = .eof
    · rw [tokens_of_eof hkind] at h
      cases h
    · rw [tokens_of_ne_eof hkind] at h
      rcases List.mem_cons.1 h with rfl | h
      · exact ⟨s, rfl, hkind⟩
      · exact ih _ (hn ▸ s.length_rest_nextToken_lt hkind) h rfl

lemma kind_nextToken_ne_blank (h : s.nextToken.1.kind ≠ .eof) : s.nextToken.1.kind ≠ .blank := by
  obtain ⟨blanks, c, ds, rest, hcuts⟩ := exists_cuts h
  rw [hcuts.nextToken_eq]
  exact ((Lexeme.begins_first hcuts.start _).kind_ne hcuts.start).2

/-- An illegal token is one character, and that makes an illegal token anywhere. -/
lemma spells_illegal (h : s.nextToken.1.kind = .illegal) :
    Spells Anything s.nextToken.1.literal.toList (Once s.nextToken.1) := by
  obtain ⟨blanks, c, ds, rest, hcuts⟩ := exists_cuts (s := s) (by rw [h]; decide)
  rw [hcuts.nextToken_eq] at h ⊢
  have hfirst : ∀ cs, Lexeme.first c cs = ⟨.illegal, [c]⟩ := Lexeme.first_of_illegal h
  rw [hfirst]
  show Spells Anything (String.ofList [c]).toList (Once ⟨.illegal, String.ofList [c], _⟩)
  rw [String.toList_ofList]
  intro rest line _
  obtain ⟨line', hscan⟩ := Scans.of_first line hcuts.start (hfirst ([] ++ rest)) rfl nofun
  exact ⟨_, line', hscan, line, rfl⟩

end Scanner

lemma Kind.cases_of_ne {k : Kind} (heof : k ≠ .eof) (hblank : k ≠ .blank) :
    k.isWord ∨ k = .int ∨ k = .str ∨ k.isSign ∨ k = .illegal := by
  cases k <;> simp_all [Kind.isWord, Kind.isSign]

lemma Token.written_of_ne_str {t : Token} (h : t.kind ≠ .str) : t.written = t.literal.toList :=
  if_neg h

/-- A token that was scanned is scanned again from what is written for it, where a blank follows. -/
lemma Spells.of_nextToken {s : Scanner} (h : s.nextToken.1.kind ≠ .eof) :
    Spells BlankNext s.nextToken.1.written (Once s.nextToken.1) := by
  have hproper := s.proper_nextToken
  rcases Kind.cases_of_ne h (Scanner.kind_nextToken_ne_blank h) with hk | hk | hk | hk | hk
  · rw [Token.written_of_ne_str (Kind.ne_of_isWord hk rfl)]
    intro rest line hrest
    exact of_word hproper hk rest line hrest.boundary
  · rw [Token.written_of_ne_str (by rw [hk]; decide)]
    intro rest line hrest
    exact of_numeral hproper hk rest line hrest.boundary
  · rw [Token.written, if_pos hk]
    exact (of_text hproper hk).before
  · rw [Token.written_of_ne_str (Kind.ne_of_isSign hk rfl)]
    exact of_sign hproper hk fun _ hrest _ => hrest.noEquals
  · rw [Token.written_of_ne_str (by rw [hk]; decide)]
    exact (Scanner.spells_illegal hk).before

/-! ## All tokens -/

/-- What is written behind the first token starts with a blank, since every gap there has one. -/
lemma blankNext_writtenOut {gaps : List (List Char)} {tokens : List Token} {rest : List Char}
    (hblank : ∀ gap ∈ gaps, ∀ b ∈ gap, isBlank b) (hne : ∀ gap ∈ gaps, gap ≠ [])
    (hrest : BlankNext rest) : BlankNext (writtenOut gaps tokens ++ rest) := by
  cases gaps with
  | nil => exact hrest
  | cons gap gaps =>
    cases tokens with
    | nil => exact hrest
    | cons t tokens =>
      rw [writtenOut, List.zipWith_cons_cons, List.flatten_cons, List.append_assoc,
        List.append_assoc]
      exact .append_of_ne_nil (hne gap List.mem_cons_self) (hblank gap List.mem_cons_self)

/-- Tokens that are scanned by themselves where a blank follows are scanned one after another. -/
lemma spells_writtenOut {gaps : List (List Char)} {tokens : List Token}
    (htokens : ∀ t ∈ tokens, Spells BlankNext t.written (Once t))
    (hlen : gaps.length = tokens.length) (hblank : ∀ gap ∈ gaps, ∀ b ∈ gap, isBlank b)
    (hne : ∀ gap ∈ gaps.tail, gap ≠ []) :
    Spells BlankNext (writtenOut gaps tokens)
      fun ts => ts.map Token.content = tokens.map Token.content := by
  induction gaps generalizing tokens with
  | nil =>
    obtain rfl : tokens = [] := List.length_eq_zero_iff.1 hlen.symm
    exact fun rest line _ => ⟨[], line, .nil, rfl⟩
  | cons gap gaps ih =>
    cases tokens with
    | nil => cases hlen
    | cons t tokens =>
      obtain ⟨ht, htokens⟩ := List.forall_mem_cons.1 htokens
      obtain ⟨hgap, hblank⟩ := List.forall_mem_cons.1 hblank
      have hfirst : Spells BlankNext (gap ++ t.written) (Once t) := by
        refine ht.blanks ?_ hgap
        rintro _ ⟨line, rfl⟩
        exact List.cons_ne_nil _ _
      have hrest := ih htokens (Nat.succ.inj hlen) hblank
        fun g hg => hne g (List.mem_of_mem_tail hg)
      rw [writtenOut, List.zipWith_cons_cons, List.flatten_cons]
      refine (hfirst.append hrest fun rest => blankNext_writtenOut hblank hne).imp ?_
      rintro _ ⟨_, vs, ⟨line, rfl⟩, hvs, rfl⟩
      rw [List.singleton_append, List.map_cons, List.map_cons, hvs]
      rfl

namespace Scanner

/-- Scanning undoes writing out. Take the tokens of any text and write each of them back, with one
or more blanks between any two of them and blanks, or none, before the first and behind the last:
the tokens of the text so written are of the same kinds and have the same literals, in the same
order. -/
theorem tokens_writtenOut (text : String) (gaps : List (List Char)) (trailing : List Char)
    (hlen : gaps.length = (ofString text).tokens.1.length)
    (hblank : ∀ gap ∈ gaps, ∀ b ∈ gap, isBlank b) (hne : ∀ gap ∈ gaps.tail, gap ≠ [])
    (htrailing : ∀ b ∈ trailing, isBlank b) :
    (ofString (String.ofList (writtenOut gaps (ofString text).tokens.1 ++ trailing))).tokens.1.map
      Token.content = (ofString text).tokens.1.map Token.content := by
  have htokens : ∀ t ∈ (ofString text).tokens.1, Spells BlankNext t.written (Once t) := by
    intro t ht
    obtain ⟨s, rfl, hkind⟩ := exists_nextToken_of_mem_tokens ht
    exact .of_nextToken hkind
  obtain ⟨ts, line, hscan, hts⟩ :=
    spells_writtenOut htokens hlen hblank hne trailing 1 (.of_forall htrailing)
  have hrest : (tokens ⟨trailing, line, false⟩).1 = [] := tokens_of_blanks htrailing
  rw [ofString, String.toList_ofList, hscan.tokens_eq_append, hrest, List.append_nil, hts]

/-- Signs that would run together, an illegal character and a string that is not closed. -/
theorem tokens_writtenOut_of_unclosed :
    (ofString (String.ofList
      (writtenOut [[], ['\n'], [' ', '\t'], ['\r'], [' '], [' ']]
        (ofString "a1===?2\"b\n=").tokens.1 ++ ['\n']))).tokens.1.map Token.content =
      [(.ident, "a1"), (.eq, "=="), (.assign, "="), (.illegal, "?"), (.int, "2"),
        (.str, "b\n=")] := by
  have hblank : ∀ gap ∈ [[], ['\n'], [' ', '\t'], ['\r'], [' '], [' ']], ∀ b ∈ gap, isBlank b := by
    simp [isBlank]
  exact tokens_writtenOut "a1===?2\"b\n=" [[], ['\n'], [' ', '\t'], ['\r'], [' '], [' ']] ['\n']
    (by decide) hblank (by simp) (by simp [isBlank])

end Scanner

end Bhasha
