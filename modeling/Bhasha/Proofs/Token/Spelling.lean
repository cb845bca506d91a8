import Bhasha.Proofs.Token.Scanning

/-!
Text that is scanned piece by piece.

`Scanner.Scans` says which tokens the scanner makes on its way from one place in the text to
another. The way can be cut where a token ends, so a text that is put together from pieces
can be scanned piece by piece, if each piece ends where a token does.

What stands behind a piece matters only for a word or a number, which must not go on there
(`Boundary`), and for the two signs that an equals sign would make longer (`NoEquals`). `Spells`
says of a piece that it is scanned by itself wherever that is kept, and what its tokens are.

Written out as it is spelled, a proper token is scanned back as it was, but for its line.
-/

namespace Bhasha

/-- The token on another line. -/
def Token.on (t : Token) (line : Nat) : Token :=
  { t with line }

@[simp] lemma Token.on_literal (t : Token) (line : Nat) : (t.on line).literal = t.literal := rfl

/-- No word and no number goes on with this text. -/
def Boundary : List Char → Prop
  | [] => True
  | c :: _ => isWordPart c = false

instance (cs : List Char) : Decidable (Boundary cs) :=
  match cs with
  | [] => .isTrue trivial
  | c :: _ => inferInstanceAs (Decidable (isWordPart c = false))

/-- No equals sign starts this text. -/
def NoEquals (cs : List Char) : Prop :=
  cs.head? ≠ some '='

/-- Any text may follow. -/
def Anything (_ : List Char) : Prop := True

lemma Boundary.takeWhile {cs : List Char} (h : Boundary cs) : cs.takeWhile isWordPart = [] := by
  cases cs with
  | nil => rfl
  | cons c cs =>
    have hc : isWordPart c = false := h
    rw [List.takeWhile_cons, hc]
    rfl

lemma Boundary.takeWhile_isDigit {cs : List Char} (h : Boundary cs) :
    cs.takeWhile Char.isDigit = [] := by
  cases cs with
  | nil => rfl
  | cons c cs =>
    have hc : isWordPart c = false := h
    have hdigit : c.isDigit = false := by
      rw [isWordPart, Bool.or_eq_false_iff] at hc
      exact hc.2
    rw [List.takeWhile_cons, hdigit]
    rfl

/-! ## Classes of characters -/

lemma isBlank_of_isWordStart {c : Char} (h : isWordStart c) : isBlank c = false := by
  rw [Bool.eq_false_iff]
  intro hblank
  simp only [isBlank, Bool.or_eq_true, beq_iff_eq] at hblank
  rcases hblank with ((rfl | rfl) | rfl) | rfl <;> cases h

lemma isBlank_of_isDigit {c : Char} (h : c.isDigit) : isBlank c = false := by
  rw [Bool.eq_false_iff]
  intro hblank
  simp only [isBlank, Bool.or_eq_true, beq_iff_eq] at hblank
  rcases hblank with ((rfl | rfl) | rfl) | rfl <;> cases h

lemma isWordStart_of_isDigit {c : Char} (h : c.isDigit) : isWordStart c = false := by
  have hc : 48 ≤ c.toNat ∧ c.toNat ≤ 57 := by
    simpa [Char.isDigit, UInt32.le_iff_toNat_le] using h
  rw [Bool.eq_false_iff]
  intro hstart
  change ((decide ('A'.val ≤ c.val ∧ c.val ≤ 'Z'.val) ||
    (decide ('a'.val ≤ c.val) && decide (c.val ≤ 'z'.val))) || c == '_' ||
    (decide (0x980 ≤ c.toNat) && decide (c.toNat ≤ 0x9FF))) = true at hstart
  simp only [Bool.or_eq_true, Bool.and_eq_true, decide_eq_true_eq, UInt32.le_iff_toNat_le,
    beq_iff_eq, Char.toNat_val] at hstart
  rcases hstart with ((⟨hs, -⟩ | ⟨hs, -⟩) | rfl) | ⟨hs, -⟩
  · exact absurd (Nat.le_trans hs hc.2) (by decide)
  · exact absurd (Nat.le_trans hs hc.2) (by decide)
  · exact absurd hc.2 (by decide)
  · omega

/-! ## The first lexeme of a piece -/

namespace Lexeme

variable {c : Char} {ds rest : List Char}

lemma first_word (hc : isWordStart c) (hds : ∀ d ∈ ds, isWordPart d) (hrest : Boundary rest) :
    first c (ds ++ rest) = ⟨Kind.ofWord (String.ofList (c :: ds)), c :: ds⟩ := by
  have htake : (ds ++ rest).takeWhile isWordPart = ds := by
    rw [List.takeWhile_append_of_pos hds, hrest.takeWhile, List.append_nil]
  rw [first, if_pos hc, htake]

lemma first_numeral (hc : c.isDigit) (hds : ∀ d ∈ ds, d.isDigit) (hrest : Boundary rest) :
    first c (ds ++ rest) = ⟨.int, c :: ds⟩ := by
  have htake : (ds ++ rest).takeWhile Char.isDigit = ds := by
    rw [List.takeWhile_append_of_pos hds, hrest.takeWhile_isDigit, List.append_nil]
  rw [first, if_neg (by rw [isWordStart_of_isDigit hc]; decide), if_pos hc, htake]

lemma first_text (hds : ∀ d ∈ ds, d ≠ '"') :
    first '"' ((ds ++ ['"']) ++ rest) = ⟨.str, '"' :: (ds ++ ['"'])⟩ := by
  have hds' : ∀ d ∈ ds, (d != '"') = true := fun d hd => bne_iff_ne.2 (hds d hd)
  have hquoted : quoted ((ds ++ ['"']) ++ rest) = ds ++ ['"'] := by
    rw [quoted, List.append_assoc, List.takeWhile_append_of_pos hds',
      List.dropWhile_append_of_pos hds']
    simp
  show Lexeme.mk .str ('"' :: quoted ((ds ++ ['"']) ++ rest)) = _
  rw [hquoted]

/-- A sign; for two of them no equals sign may follow. -/
lemma first_sign {k : Kind} (hk : k.isSign)
    (hrest : k = .assign ∨ k = .bang → NoEquals rest) :
    ∃ c ds, k.name.toList = c :: ds ∧ isBlank c = false ∧ first c (ds ++ rest) = ⟨k, c :: ds⟩ := by
  cases k <;> cases hk
  case assign =>
    refine ⟨'=', [], rfl, rfl, ?_⟩
    show (if (rest.head? == some '=') = true then _ else _) = _
    rw [if_neg fun h => hrest (Or.inl rfl) (beq_iff_eq.1 h)]
  case bang =>
    refine ⟨'!', [], rfl, rfl, ?_⟩
    show (if (rest.head? == some '=') = true then _ else _) = _
    rw [if_neg fun h => hrest (Or.inr rfl) (beq_iff_eq.1 h)]
  all_goals exact ⟨_, _, rfl, rfl, rfl⟩

end Lexeme

/-! ## Scanning a piece -/

namespace Scanner

/-- On its way from one place to another the scanner makes these tokens. -/
inductive Scans : Scanner → List Token → Scanner → Prop
  | nil {s : Scanner} : Scans s [] s
  | cons {s s' : Scanner} {ts : List Token} : s.nextToken.1.kind ≠ .eof →
      Scans s.nextToken.2 ts s' → Scans s (s.nextToken.1 :: ts) s'

variable {c : Char} {cs ds rest : List Char} {line : Nat} {s s' s'' : Scanner} {t : Token}
  {ts us : List Token}

lemma Scans.trans (h : Scans s ts s') (h' : Scans s' us s'') : Scans s (ts ++ us) s'' := by
  induction h with
  | nil => exact h'
  | cons hkind _ ih => exact .cons hkind (ih h')

/-- A scan makes the first of the tokens, and the others come behind it. -/
lemma Scans.tokens_eq_append (h : Scans s ts s') : s.tokens.1 = ts ++ s'.tokens.1 := by
  induction h with
  | nil => rfl
  | cons hkind _ ih => rw [tokens_of_ne_eof hkind, ih, List.cons_append]

/-- A scan up to the end of the text makes all its tokens. -/
lemma Scans.tokens_eq (h : Scans s ts s') (hs' : s'.rest = []) : s.tokens.1 = ts := by
  rw [h.tokens_eq_append, tokens_of_eof (kind_nextToken_of_rest_nil hs'), List.append_nil]

/-- Blanks before a token only count for its line. -/
lemma nextToken_append {blanks : List Char} (hblanks : ∀ b ∈ blanks, isBlank b) (cs : List Char)
    (line : Nat) (finished : Bool) :
    nextToken ⟨blanks ++ cs, line, finished⟩ =
      nextToken ⟨cs, line + lineFeeds blanks, finished⟩ := by
  have hskip : skipBlanks ⟨blanks ++ cs, line, finished⟩ =
      skipBlanks ⟨cs, line + lineFeeds blanks, finished⟩ := by
    simp only [skipBlanks, List.dropWhile_append_of_pos hblanks,
      List.takeWhile_append_of_pos hblanks, lineFeeds, List.count_append, Nat.add_assoc]
  rw [nextToken, nextToken, hskip]

/-- Blanks before a token only move it to another line. -/
lemma Scans.blanks {gap : List Char} (hgap : ∀ b ∈ gap, isBlank b) (hts : ts ≠ [])
    (h : Scans ⟨cs, line + lineFeeds gap, false⟩ ts s) :
    Scans ⟨gap ++ cs, line, false⟩ ts s := by
  have hnext := nextToken_append hgap cs line false
  cases h with
  | nil => exact absurd rfl hts
  | cons hkind hrest =>
    rw [← hnext] at hkind hrest ⊢
    exact .cons hkind hrest

lemma nextToken_cons (hc : isBlank c = false) (cs : List Char) (line : Nat) (finished : Bool) :
    nextToken ⟨c :: cs, line, finished⟩ =
      (⟨(Lexeme.first c cs).kind, (Lexeme.first c cs).literal, line⟩,
        ⟨(c :: cs).drop (Lexeme.first c cs).text.length,
          line + lineFeeds (Lexeme.first c cs).text, finished⟩) := by
  have hskip : skipBlanks ⟨c :: cs, line, finished⟩ = ⟨c :: cs, line, finished⟩ := by
    rw [skipBlanks]
    simp [hc, lineFeeds]
  rw [nextToken, hskip]

/-- A piece that is the first lexeme of what it starts. -/
lemma Scans.of_first {l : Lexeme} (line : Nat) (hc : isBlank c = false)
    (hfirst : Lexeme.first c (ds ++ rest) = l) (htext : l.text = c :: ds) (hkind : l.kind ≠ .eof) :
    ∃ line', Scans ⟨c :: (ds ++ rest), line, false⟩ [⟨l.kind, l.literal, line⟩]
      ⟨rest, line', false⟩ := by
  have hnext := nextToken_cons hc (ds ++ rest) line false
  have hdrop : (c :: (ds ++ rest)).drop (c :: ds).length = rest := by simp
  rw [hfirst, htext, hdrop] at hnext
  have hscan := Scans.cons (s := ⟨c :: (ds ++ rest), line, false⟩) (by rw [hnext]; exact hkind) .nil
  rw [hnext] at hscan
  exact ⟨_, hscan⟩

/-- An equals sign at the start of the text makes a token that is one. -/
lemma Scans.noEquals (h : Scans ⟨cs, line, false⟩ (t :: ts) s) (heq : t.kind ≠ .eq)
    (hassign : t.kind ≠ .assign) : NoEquals cs := by
  intro hhead
  obtain ⟨ds, rfl⟩ := List.head?_eq_some_iff.1 hhead
  have hnext := nextToken_cons (c := '=') rfl ds line false
  have hkind : (Lexeme.first '=' ds).kind =
      if ds.head? == some '=' then .eq else .assign := by
    show (if ds.head? == some '=' then Lexeme.mk .eq ['=', '='] else ⟨.assign, ['=']⟩).kind = _
    split <;> rfl
  cases h with
  | cons _ _ =>
    rw [hnext] at heq hassign
    dsimp only at heq hassign
    rw [hkind] at heq hassign
    split at heq
    · exact heq rfl
    · rename_i hd
      rw [if_neg hd] at hassign
      exact hassign rfl

end Scanner

/-! ## Pieces of text -/

open Scanner

/-- Wherever the piece stands, if what follows it is allowed, it is scanned by itself and its tokens
have the property. -/
def Spells (follow : List Char → Prop) (text : List Char) (P : List Token → Prop) : Prop :=
  ∀ rest line, follow rest → ∃ ts line',
    Scans ⟨text ++ rest, line, false⟩ ts ⟨rest, line', false⟩ ∧ P ts

/-- The tokens are this one, on whatever line. -/
def Once (t : Token) (ts : List Token) : Prop :=
  ∃ line, ts = [t.on line]

/-- The tokens fall into two parts with these properties. -/
def Then (P Q : List Token → Prop) (ts : List Token) : Prop :=
  ∃ us vs, P us ∧ Q vs ∧ ts = us ++ vs

namespace Spells

variable {follow follow' : List Char → Prop} {text text' : List Char} {P Q : List Token → Prop}
  {t : Token}

lemma imp (h : Spells follow text P) (hPQ : ∀ ts, P ts → Q ts) : Spells follow text Q := by
  intro rest line hrest
  obtain ⟨ts, line', hscan, hts⟩ := h rest line hrest
  exact ⟨ts, line', hscan, hPQ ts hts⟩

lemma before (h : Spells Anything text P) : Spells follow text P :=
  fun rest line _ => h rest line trivial

/-- Two pieces, the first of which may stand before the second. -/
lemma append (h : Spells follow text P) (h' : Spells follow' text' Q)
    (hfollow : ∀ rest, follow' rest → follow (text' ++ rest)) :
    Spells follow' (text ++ text') (Then P Q) := by
  intro rest line hrest
  obtain ⟨us, line₁, hus, hP⟩ := h (text' ++ rest) line (hfollow rest hrest)
  obtain ⟨vs, line₂, hvs, hQ⟩ := h' rest line₁ hrest
  rw [List.append_assoc]
  exact ⟨us ++ vs, line₂, hus.trans hvs, us, vs, hP, hQ, rfl⟩

/-- Blanks before a piece that has tokens. -/
lemma blanks {gap : List Char} (h : Spells follow text P) (hP : ∀ ts, P ts → ts ≠ [])
    (hgap : ∀ b ∈ gap, isBlank b) : Spells follow (gap ++ text) P := by
  intro rest line hrest
  obtain ⟨ts, line', hscan, hts⟩ := h rest (line + lineFeeds gap) hrest
  rw [List.append_assoc]
  exact ⟨ts, line', hscan.blanks hgap (hP ts hts), hts⟩

/-- A space before a piece that has tokens. -/
lemma space (h : Spells follow text P) (hP : ∀ ts, P ts → ts ≠ []) :
    Spells follow (' ' :: text) P :=
  h.blanks hP (List.forall_mem_singleton.2 rfl)

lemma noEquals (h : Spells follow text P)
    (hP : ∀ ts, P ts → ∃ t us, ts = t :: us ∧ t.kind ≠ .eq ∧ t.kind ≠ .assign)
    {rest : List Char} (hrest : follow rest) : NoEquals (text ++ rest) := by
  obtain ⟨ts, line', hscan, hts⟩ := h rest 0 hrest
  obtain ⟨t, us, rfl, heq, hassign⟩ := hP ts hts
  exact hscan.noEquals heq hassign

/-! ## The spelling of a token -/

lemma of_word (ht : t.Proper) (hk : t.kind.isWord) : Spells Boundary t.literal.toList (Once t) := by
  intro rest line hrest
  obtain ⟨⟨c, ds, htext, hc, hds⟩, hkind⟩ := ht.word hk
  have hlit : t.literal = String.ofList (c :: ds) := by rw [← htext, String.ofList_toList]
  have hfirst := Lexeme.first_word hc hds hrest
  rw [← hlit, hkind] at hfirst
  obtain ⟨line', hscan⟩ := Scans.of_first line (isBlank_of_isWordStart hc) hfirst rfl
    (Kind.ne_of_isWord hk rfl)
  rw [Lexeme.literal_of_ne_str (Kind.ne_of_isWord hk rfl), ← hlit] at hscan
  rw [htext]
  exact ⟨_, line', hscan, line, rfl⟩

lemma of_numeral (ht : t.Proper) (hk : t.kind = .int) :
    Spells Boundary t.literal.toList (Once t) := by
  intro rest line hrest
  obtain ⟨c, ds, htext, hc, hds⟩ := ht.digits hk
  have hlit : t.literal = String.ofList (c :: ds) := by rw [← htext, String.ofList_toList]
  obtain ⟨line', hscan⟩ := Scans.of_first line (isBlank_of_isDigit hc)
    (Lexeme.first_numeral hc hds hrest) rfl (fun h => by cases h)
  refine ⟨[t.on line], line', ?_, line, rfl⟩
  rw [htext, Token.on, hk, hlit]
  exact hscan

/-- A string between its quotation marks. -/
lemma of_text (ht : t.Proper) (hk : t.kind = .str) :
    Spells Anything ('"' :: (t.literal.toList ++ ['"'])) (Once t) := by
  intro rest line _
  have hds := ht.text hk
  have hlit : Lexeme.literal ⟨.str, '"' :: (t.literal.toList ++ ['"'])⟩ = t.literal := by
    have hfilter : ('"' :: (t.literal.toList ++ ['"'])).filter (· != '"') = t.literal.toList := by
      rw [List.filter_cons_of_neg (by decide), List.filter_append,
        List.filter_eq_self.2 fun d hd => bne_iff_ne.2 (hds d hd)]
      simp
    show String.ofList (('"' :: (t.literal.toList ++ ['"'])).filter (· != '"')) = _
    rw [hfilter, String.ofList_toList]
  obtain ⟨line', hscan⟩ := Scans.of_first line (by decide) (Lexeme.first_text hds) rfl
    (fun h => by cases h)
  refine ⟨[t.on line], line', ?_, line, rfl⟩
  rw [hlit] at hscan
  rw [Token.on, hk]
  exact hscan

lemma of_sign (ht : t.Proper) (hk : t.kind.isSign)
    (hfollow : ∀ rest, follow rest → t.kind = .assign ∨ t.kind = .bang → NoEquals rest) :
    Spells follow t.literal.toList (Once t) := by
  intro rest line hrest
  obtain ⟨c, ds, htext, hc, hfirst⟩ := Lexeme.first_sign hk (hfollow rest hrest)
  rw [← ht.sign hk] at htext
  have hlit : t.literal = String.ofList (c :: ds) := by rw [← htext, String.ofList_toList]
  obtain ⟨line', hscan⟩ := Scans.of_first line hc hfirst rfl (Kind.ne_of_isSign hk rfl)
  rw [Lexeme.literal_of_ne_str (Kind.ne_of_isSign hk rfl), ← hlit] at hscan
  rw [htext]
  exact ⟨_, line', hscan, line, rfl⟩

end Spells

/-- The token of a sign. -/
def Kind.token (k : Kind) : Token :=
  ⟨k, k.name, 0⟩

/-- A sign that nothing behind it can make longer. -/
lemma Spells.of_kind (k : Kind) (hk : k.isSign ∧ k ≠ .assign ∧ k ≠ .bang) :
    Spells Anything k.name.toList (Once k.token) :=
  Spells.of_sign (Kind.proper_of_isSign hk.1 0) hk.1 fun _ _ h => absurd h (not_or.2 hk.2)

end Bhasha
