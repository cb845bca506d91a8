import Bhasha.Token.Scanner
import Mathlib.Data.List.TakeWhile
import Mathlib.Tactic.Common

/-!
The tokens of a text.

The tokens of a text end with the end token, which is not among them. Each is proper: its
literal is what a token of its kind can be made of. A word is a word and spells its kind, an
integer is a run of digits, a string holds no quotation mark, and a sign is itself. No token stands
on an earlier line than the tokens before it.
-/

namespace Bhasha

/-! ## Proper tokens -/

/-- The kinds of words: identifiers and keywords. -/
def Kind.isWord : Kind → Bool
  | ident | kwFunction | kwLet | kwTrue | kwFalse | kwIf | kwElse | kwReturn => true
  | _ => false

/-- The kinds of signs. -/
def Kind.isSign : Kind → Bool
  | assign | eq | bang | notEq | plus | minus | asterisk | slash | lt | gt | comma | semicolon
  | colon | lparen | rparen | lbrace | rbrace | lbracket | rbracket => true
  | _ => false

/-- A character that starts a word, and then characters that go on with it. -/
def IsWord (cs : List Char) : Prop :=
  ∃ c ds, cs = c :: ds ∧ isWordStart c ∧ ∀ d ∈ ds, isWordPart d

/-- One or more digits. -/
def IsNumeral (cs : List Char) : Prop :=
  ∃ c ds, cs = c :: ds ∧ c.isDigit ∧ ∀ d ∈ ds, d.isDigit

/-- The literal of the token fits its kind. -/
structure Token.Proper (t : Token) : Prop where
  word : t.kind.isWord → IsWord t.literal.toList ∧ Kind.ofWord t.literal = t.kind
  digits : t.kind = .int → IsNumeral t.literal.toList
  text : t.kind = .str → ∀ c ∈ t.literal.toList, c ≠ '"'
  sign : t.kind.isSign → t.literal = t.kind.name

lemma Kind.isWord_ofWord (w : String) : (Kind.ofWord w).isWord := by
  have hall : ∀ entry ∈ keywords, entry.2.isWord := by decide
  rw [ofWord]
  cases h : keywords.lookup w with
  | none => rfl
  | some k =>
    obtain ⟨l₁, l₂, heq, -⟩ := List.lookup_eq_some_iff.1 h
    exact hall (w, k) (by rw [heq]; simp)

lemma Kind.ne_of_isWord {k k' : Kind} (hk : k.isWord) (hk' : k'.isWord = false) : k ≠ k' := by
  rintro rfl
  rw [hk] at hk'
  cases hk'

lemma Kind.ofWord_ne (w : String) {k : Kind} (hk : k.isWord = false) : ofWord w ≠ k :=
  ne_of_isWord (isWord_ofWord w) hk

lemma Kind.ne_of_isSign {k k' : Kind} (hk : k.isSign) (hk' : k'.isSign = false) : k ≠ k' := by
  rintro rfl
  rw [hk] at hk'
  cases hk'

lemma Kind.isWord_of_isSign {k : Kind} (hk : k.isSign) : k.isWord = false := by
  cases k <;> first | rfl | cases hk

lemma Kind.isSign_of_isWord {k : Kind} (hk : k.isWord) : k.isSign = false := by
  cases k <;> first | rfl | cases hk

lemma Kind.proper_of_isSign {k : Kind} (hk : k.isSign) (line : Nat) :
    Token.Proper ⟨k, k.name, line⟩ := by
  refine ⟨fun h => ?_, fun h => ?_, fun h => ?_, fun _ => rfl⟩
  · cases (Kind.isWord_of_isSign hk).symm.trans h
  · exact absurd h (Kind.ne_of_isSign hk rfl)
  · exact absurd h (Kind.ne_of_isSign hk rfl)

namespace Lexeme

lemma literal_of_ne_str {l : Lexeme} (h : l.kind ≠ .str) : l.literal = String.ofList l.text := by
  unfold literal
  split
  · rename_i hstr
    exact absurd hstr h
  · rfl

lemma proper_word {w : List Char} (hw : IsWord w) (line : Nat) :
    Token.Proper ⟨Kind.ofWord (String.ofList w),
      literal ⟨Kind.ofWord (String.ofList w), w⟩, line⟩ := by
  have hk := Kind.isWord_ofWord (String.ofList w)
  have hlit : literal ⟨Kind.ofWord (String.ofList w), w⟩ = String.ofList w :=
    literal_of_ne_str (Kind.ne_of_isWord hk rfl)
  rw [hlit]
  refine ⟨fun _ => ⟨?_, rfl⟩, fun h => ?_, fun h => ?_, fun h => ?_⟩
  · rwa [String.toList_ofList]
  · exact absurd h (Kind.ne_of_isWord hk rfl)
  · exact absurd h (Kind.ne_of_isWord hk rfl)
  · have hno : (Kind.ofWord (String.ofList w)).isSign = false := Kind.isSign_of_isWord hk
    cases hno.symm.trans h

lemma proper_numeral {w : List Char} (hw : IsNumeral w) (line : Nat) :
    Token.Proper ⟨.int, literal ⟨.int, w⟩, line⟩ := by
  refine ⟨fun h => ?_, fun _ => ?_, fun h => ?_, fun h => ?_⟩
  · cases h
  · show IsNumeral (String.ofList w).toList
    rwa [String.toList_ofList]
  · cases h
  · cases h

lemma proper_text (w : List Char) (line : Nat) :
    Token.Proper ⟨.str, literal ⟨.str, w⟩, line⟩ := by
  refine ⟨fun h => ?_, fun h => ?_, fun _ c hc => ?_, fun h => ?_⟩
  · cases h
  · cases h
  · have hmem : c ∈ (String.ofList (w.filter (· != '"'))).toList := hc
    rw [String.toList_ofList, List.mem_filter] at hmem
    simpa using hmem.2
  · cases h

lemma proper_sign (c : Char) (cs : List Char) (line : Nat) :
    Token.Proper ⟨(sign c cs).kind, (sign c cs).literal, line⟩ := by
  have hillegal : ∀ d : Char, Token.Proper ⟨.illegal, literal ⟨.illegal, [d]⟩, line⟩ := by
    intro d
    refine ⟨fun h => ?_, fun h => ?_, fun h => ?_, fun h => ?_⟩ <;> cases h
  unfold sign
  dsimp only
  split <;> first
    | exact Kind.proper_of_isSign rfl line
    | exact hillegal _
    | (split <;> exact Kind.proper_of_isSign rfl line)

/-- The first lexeme of a text makes a proper token. -/
lemma proper_first (c : Char) (cs : List Char) (line : Nat) :
    Token.Proper ⟨(first c cs).kind, (first c cs).literal, line⟩ := by
  unfold first
  split
  · rename_i hc
    exact proper_word ⟨c, _, rfl, hc, fun d hd => List.mem_takeWhile_imp hd⟩ line
  · split
    · rename_i hc
      exact proper_numeral ⟨c, _, rfl, hc, fun d hd => List.mem_takeWhile_imp hd⟩ line
    · split
      · exact proper_text _ line
      · exact proper_sign c cs line

end Lexeme

/-! ## The tokens of a text -/

namespace Scanner

/-- Every token that the scanner makes is proper. -/
lemma proper_nextToken (s : Scanner) : s.nextToken.1.Proper := by
  rw [nextToken]
  dsimp only
  split
  · refine ⟨fun h => ?_, fun h => ?_, fun h => ?_, fun h => ?_⟩ <;> cases h
  · exact Lexeme.proper_first _ _ _

lemma kind_nextToken_of_rest_nil {s : Scanner} (h : s.rest = []) : s.nextToken.1.kind = .eof := by
  obtain ⟨rest, line, finished⟩ := s
  obtain rfl : rest = [] := h
  rfl

lemma tokensWithin_succ_eq (n : Nat) (s : Scanner) : tokensWithin (n + 1) s =
    if s.nextToken.1.kind = .eof then ([], s.nextToken.1)
    else (s.nextToken.1 :: (tokensWithin n s.nextToken.2).1, (tokensWithin n s.nextToken.2).2) :=
  rfl

lemma tokensWithin_of_eof {n : Nat} {s : Scanner} (h : s.nextToken.1.kind = .eof) :
    tokensWithin n s = ([], s.nextToken.1) := by
  cases n with
  | zero => rfl
  | succ n => rw [tokensWithin_succ_eq, if_pos h]

lemma tokensWithin_succ {n : Nat} {s : Scanner} (h : s.nextToken.1.kind ≠ .eof) :
    tokensWithin (n + 1) s =
      (s.nextToken.1 :: (tokensWithin n s.nextToken.2).1, (tokensWithin n s.nextToken.2).2) := by
  rw [tokensWithin_succ_eq, if_neg h]

/-- Any number that bounds the text gives the same tokens. -/
lemma tokensWithin_eq_tokens {n : Nat} {s : Scanner} (hn : s.rest.length ≤ n) :
    tokensWithin n s = s.tokens := by
  have hagree : ∀ (n k : Nat) (s : Scanner), s.rest.length ≤ n → s.rest.length ≤ k →
      tokensWithin n s = tokensWithin k s := by
    intro n
    induction n with
    | zero =>
      intro k s hn _
      have h := kind_nextToken_of_rest_nil (List.length_eq_zero_iff.1 (Nat.le_zero.1 hn))
      rw [tokensWithin_of_eof h, tokensWithin_of_eof h]
    | succ n ih =>
      intro k s hn hk
      by_cases h : s.nextToken.1.kind = .eof
      · rw [tokensWithin_of_eof h, tokensWithin_of_eof h]
      · have hlt := s.length_rest_nextToken_lt h
        obtain ⟨k, rfl⟩ := Nat.exists_eq_succ_of_ne_zero (by omega : k ≠ 0)
        rw [tokensWithin_succ h, tokensWithin_succ h, ih k _ (by omega) (by omega)]
  exact hagree n _ s hn (Nat.le_refl _)

lemma tokens_of_eof {s : Scanner} (h : s.nextToken.1.kind = .eof) :
    s.tokens = ([], s.nextToken.1) :=
  tokensWithin_of_eof h

lemma tokens_of_ne_eof {s : Scanner} (h : s.nextToken.1.kind ≠ .eof) :
    s.tokens = (s.nextToken.1 :: s.nextToken.2.tokens.1, s.nextToken.2.tokens.2) := by
  have hlt := s.length_rest_nextToken_lt h
  rw [← tokensWithin_eq_tokens (Nat.le_succ s.rest.length), tokensWithin_succ h,
    tokensWithin_eq_tokens (Nat.le_of_lt hlt)]

/-- What stands behind the tokens is the end token. -/
lemma kind_last_tokensWithin {n : Nat} {s : Scanner} (hn : s.rest.length ≤ n) :
    (tokensWithin n s).2.kind = .eof := by
  induction n generalizing s with
  | zero => exact kind_nextToken_of_rest_nil (List.length_eq_zero_iff.1 (Nat.le_zero.1 hn))
  | succ n ih =>
    by_cases h : s.nextToken.1.kind = .eof
    · rw [tokensWithin_of_eof h]
      exact h
    · rw [tokensWithin_succ h]
      have hlt := s.length_rest_nextToken_lt h
      exact ih (by omega)

/-- The tokens are proper, and the end token is not among them. -/
lemma of_mem_tokensWithin {n : Nat} {s : Scanner} {t : Token} (h : t ∈ (tokensWithin n s).1) :
    t.Proper ∧ t.kind ≠ .eof := by
  induction n generalizing s with
  | zero => cases h
  | succ n ih =>
    by_cases hs : s.nextToken.1.kind = .eof
    · rw [tokensWithin_of_eof hs] at h
      cases h
    · rw [tokensWithin_succ hs] at h
      rcases List.mem_cons.1 h with rfl | h
      · exact ⟨s.proper_nextToken, hs⟩
      · exact ih h

lemma proper_last_tokensWithin (n : Nat) (s : Scanner) : (tokensWithin n s).2.Proper := by
  induction n generalizing s with
  | zero => exact s.proper_nextToken
  | succ n ih =>
    by_cases h : s.nextToken.1.kind = .eof
    · rw [tokensWithin_of_eof h]
      exact s.proper_nextToken
    · rw [tokensWithin_succ h]
      exact ih _

lemma kind_last_tokens (s : Scanner) : s.tokens.2.kind = .eof :=
  kind_last_tokensWithin (Nat.le_refl _)

lemma proper_last_tokens (s : Scanner) : s.tokens.2.Proper :=
  proper_last_tokensWithin _ s

lemma kind_ne_eof_of_mem_tokens {s : Scanner} {t : Token} (h : t ∈ s.tokens.1) : t.kind ≠ .eof :=
  (of_mem_tokensWithin h).2

lemma proper_of_mem_tokens {s : Scanner} {t : Token} (h : t ∈ s.tokens.1) : t.Proper :=
  (of_mem_tokensWithin h).1

/-! ## Lines -/

lemma line_le_line_nextToken (s : Scanner) : s.line ≤ s.nextToken.1.line := by
  rw [nextToken]
  dsimp only
  split <;> exact Nat.le_add_right _ _

/-- The scanner stands on the line of the token it has read, or on a later one. -/
lemma line_nextToken_le_line (s : Scanner) : s.nextToken.1.line ≤ s.nextToken.2.line := by
  rw [nextToken]
  dsimp only
  split
  · exact Nat.le_refl _
  · exact Nat.le_add_right _ _

/-- The tokens of a text with the end token behind them. -/
def stream (s : Scanner) : List Token :=
  s.tokens.1 ++ [s.tokens.2]

lemma stream_of_eof {s : Scanner} (h : s.nextToken.1.kind = .eof) :
    s.stream = [s.nextToken.1] := by
  rw [stream, tokens_of_eof h, List.nil_append]

lemma stream_of_ne_eof {s : Scanner} (h : s.nextToken.1.kind ≠ .eof) :
    s.stream = s.nextToken.1 :: s.nextToken.2.stream := by
  rw [stream, tokens_of_ne_eof h, stream, List.cons_append]

/-- No token stands on an earlier line than the tokens before it. -/
lemma pairwise_line_stream (s : Scanner) :
    s.stream.Pairwise (fun t u => t.line ≤ u.line) ∧ ∀ t ∈ s.stream, s.line ≤ t.line := by
  induction hn : s.rest.length using Nat.strong_induction_on generalizing s with
  | _ n ih =>
    by_cases h : s.nextToken.1.kind = .eof
    · rw [stream_of_eof h]
      exact ⟨List.pairwise_singleton _ _, by simpa using s.line_le_line_nextToken⟩
    · have hlt := s.length_rest_nextToken_lt h
      obtain ⟨hpairwise, hline⟩ := ih _ (hn ▸ hlt) s.nextToken.2 rfl
      have hlater : ∀ t ∈ s.nextToken.2.stream, s.nextToken.1.line ≤ t.line :=
        fun t ht => s.line_nextToken_le_line.trans (hline t ht)
      rw [stream_of_ne_eof h]
      refine ⟨List.pairwise_cons.2 ⟨hlater, hpairwise⟩, ?_⟩
      exact List.forall_mem_cons.2 ⟨s.line_le_line_nextToken,
        fun t ht => s.line_le_line_nextToken.trans (hlater t ht)⟩

end Scanner

end Bhasha
