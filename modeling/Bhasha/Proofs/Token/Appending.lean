import Bhasha.Proofs.Token.Tiling

/-!
A text behind another.

The scanner looks one character past a word, a number or a sign to see where it ends, so the tokens
of two texts are not in general those of the first and then those of the second. But a semicolon
ends where it begins. If it is the last token of the first text, the tokens of the two texts are
put together, and those of the second stand on later lines by as many as the first has line feeds.
-/

namespace Bhasha

/-- The token on a line that is later by `n`. -/
def Token.later (n : Nat) (t : Token) : Token :=
  { t with line := t.line + n }

namespace Scanner

variable {s : Scanner}

/-- The scanner on a line that is later by `n`. -/
def later (n : Nat) (s : Scanner) : Scanner :=
  { s with line := s.line + n }

/-- The scanner with more text at the end. -/
def append (s : Scanner) (cs : List Char) : Scanner :=
  { s with rest := s.rest ++ cs }

/-! ## Later lines -/

/-- The scanner counts lines and does not look at the count. -/
lemma nextToken_later (n : Nat) (s : Scanner) :
    (s.later n).nextToken = (s.nextToken.1.later n, s.nextToken.2.later n) := by
  unfold nextToken later Token.later skipBlanks
  cases s.rest.dropWhile isBlank with
  | nil => simp only [Nat.add_right_comm _ n]
  | cons c cs => simp only [Nat.add_right_comm _ n]

lemma tokens_later (n : Nat) (s : Scanner) :
    (s.later n).tokens = (s.tokens.1.map (Token.later n), s.tokens.2.later n) := by
  induction hlen : s.rest.length using Nat.strong_induction_on generalizing s with
  | _ len ih =>
    have hnext := nextToken_later n s
    by_cases h : s.nextToken.1.kind = .eof
    · have h' : (s.later n).nextToken.1.kind = .eof := by rw [hnext]; exact h
      rw [tokens_of_eof h, tokens_of_eof h', hnext]
      rfl
    · have h' : (s.later n).nextToken.1.kind ≠ .eof := by rw [hnext]; exact h
      have hlt := s.length_rest_nextToken_lt h
      rw [tokens_of_ne_eof h, tokens_of_ne_eof h', hnext, ih _ (hlen ▸ hlt) s.nextToken.2 rfl]
      rfl

/-! ## More text at the end -/

/-- Blanks count for the lines, and then they are forgotten. -/
lemma tokens_blanks {blanks : List Char} (h : ∀ b ∈ blanks, isBlank b) (cs : List Char)
    (line : Nat) (finished : Bool) :
    tokens ⟨blanks ++ cs, line, finished⟩ = tokens ⟨cs, line + lineFeeds blanks, finished⟩ := by
  have hnext := nextToken_append h cs line finished
  by_cases hk : (nextToken ⟨cs, line + lineFeeds blanks, finished⟩).1.kind = .eof
  · have hk' : (nextToken ⟨blanks ++ cs, line, finished⟩).1.kind = .eof := by rw [hnext]; exact hk
    rw [tokens_of_eof hk, tokens_of_eof hk', hnext]
  · have hk' : (nextToken ⟨blanks ++ cs, line, finished⟩).1.kind ≠ .eof := by rw [hnext]; exact hk
    rw [tokens_of_ne_eof hk, tokens_of_ne_eof hk', hnext]

/-- A semicolon is cut as a semicolon, whatever stands behind it. -/
lemma exists_cuts_semicolon (h : s.nextToken.1.kind = .semicolon) :
    ∃ blanks, s.Cuts blanks ';' [] s.nextToken.2.rest := by
  obtain ⟨blanks, c, ds, rest, hcuts⟩ := exists_cuts (s := s) (by rw [h]; decide)
  have hnext := hcuts.nextToken_eq
  have hproper := s.proper_nextToken
  rw [hnext] at h hproper ⊢
  have hsign : (Lexeme.first c (ds ++ rest)).kind.isSign := by
    change (Lexeme.first c (ds ++ rest)).kind = .semicolon at h
    rw [h]
    rfl
  have hliteral : (Lexeme.first c (ds ++ rest)).literal = ";" := by
    have hname := hproper.sign hsign
    change (Lexeme.first c (ds ++ rest)).kind = .semicolon at h
    change (Lexeme.first c (ds ++ rest)).literal = (Lexeme.first c (ds ++ rest)).kind.name at hname
    rw [hname, h]
    rfl
  rw [Lexeme.literal_of_ne_str (Kind.ne_of_isSign hsign rfl), hcuts.lexeme] at hliteral
  have htext : c :: ds = [';'] := by
    rw [← String.toList_ofList (l := c :: ds), hliteral]
    rfl
  obtain ⟨rfl, rfl⟩ := List.cons.inj htext
  exact ⟨blanks, hcuts⟩

/-- More text behind a last semicolon does not change how it is cut. -/
lemma nextToken_append_of_semicolon (h : s.nextToken.1.kind = .semicolon) (cs : List Char) :
    (s.append cs).nextToken = (s.nextToken.1, s.nextToken.2.append cs) := by
  obtain ⟨blanks, hcuts⟩ := exists_cuts_semicolon h
  have hmore : (s.append cs).Cuts blanks ';' [] (s.nextToken.2.rest ++ cs) := by
    refine ⟨?_, hcuts.blank, hcuts.start, rfl⟩
    show s.rest ++ cs = _
    rw [hcuts.text, List.append_assoc, List.cons_append]
    rfl
  rw [hmore.nextToken_eq, hcuts.nextToken_eq]
  rfl

/-- More text behind a token that other text follows does not change how it is cut. -/
lemma nextToken_append_of_rest (h : s.nextToken.1.kind ≠ .eof) (hrest : s.nextToken.2.rest ≠ [])
    (cs : List Char) : (s.append cs).nextToken = (s.nextToken.1, s.nextToken.2.append cs) := by
  obtain ⟨blanks, c, ds, rest, hcuts⟩ := exists_cuts h
  have hpiece : s.rest = (blanks ++ c :: ds) ++ s.nextToken.2.rest := by
    rw [hcuts.nextToken_eq, hcuts.text, List.append_assoc, List.cons_append]
  have hstart : SameStart s.nextToken.2.rest (s.nextToken.2.rest ++ cs) := by
    obtain ⟨d, rest', heq⟩ := List.exists_cons_of_ne_nil hrest
    rw [heq]
    exact Or.inl rfl
  obtain ⟨-, hkeep⟩ := nextToken_keep h hpiece hstart
  rw [← List.append_assoc, ← hpiece] at hkeep
  exact hkeep

/-- The tokens of a text whose last token is a semicolon, and then those of the text behind it. -/
lemma tokens_append (s : Scanner) (cs : List Char)
    (h : s.tokens.1.getLast?.map Token.kind = some .semicolon) :
    (s.append cs).tokens =
      (s.tokens.1 ++ (tokens ⟨cs, s.line + lineFeeds s.rest, s.finished⟩).1,
        (tokens ⟨cs, s.line + lineFeeds s.rest, s.finished⟩).2) := by
  induction hlen : s.rest.length using Nat.strong_induction_on generalizing s with
  | _ len ih =>
    have hne : s.nextToken.1.kind ≠ .eof := by
      intro heof
      rw [tokens_of_eof heof] at h
      cases h
    have hlt := s.length_rest_nextToken_lt hne
    obtain ⟨blanks, c, ds, rest, hcuts⟩ := exists_cuts hne
    -- the lines that the scanner counts with the token are those of its piece of the text
    have hline : s.nextToken.2.line + lineFeeds s.nextToken.2.rest = s.line + lineFeeds s.rest := by
      rw [hcuts.nextToken_eq, hcuts.text]
      show s.line + lineFeeds blanks + lineFeeds (c :: ds) + lineFeeds rest =
        s.line + lineFeeds (blanks ++ ((c :: ds) ++ rest))
      rw [lineFeeds_append, lineFeeds_append]
      omega
    have hfinished := s.finished_nextToken
    by_cases hlast : s.nextToken.2.nextToken.1.kind = .eof
    · -- the token is the last one, and behind it are blanks
      obtain ⟨hblank, -⟩ := nextToken_of_eof hlast
      have hsemi : s.nextToken.1.kind = .semicolon := by
        rw [tokens_of_ne_eof hne, tokens_of_eof hlast] at h
        exact Option.some.inj h
      have hnext := nextToken_append_of_semicolon hsemi cs
      have hne' : (s.append cs).nextToken.1.kind ≠ .eof := by rw [hnext]; exact hne
      have hblanks := tokens_blanks hblank cs s.nextToken.2.line s.nextToken.2.finished
      rw [hline, hfinished] at hblanks
      rw [tokens_of_ne_eof hne, tokens_of_ne_eof hne', hnext, tokens_of_eof hlast, ← hblanks,
        ← hfinished]
      rfl
    · have hrest : s.nextToken.2.rest ≠ [] := fun hnil =>
        hlast (kind_nextToken_of_rest_nil hnil)
      have hmore : s.nextToken.2.tokens.1.getLast?.map Token.kind = some .semicolon := by
        rw [tokens_of_ne_eof hne, tokens_of_ne_eof hlast] at h
        rw [tokens_of_ne_eof hlast, ← h]
        rfl
      have hnext := nextToken_append_of_rest hne hrest cs
      have hne' : (s.append cs).nextToken.1.kind ≠ .eof := by rw [hnext]; exact hne
      rw [tokens_of_ne_eof hne, tokens_of_ne_eof hne', hnext,
        ih _ (hlen ▸ hlt) s.nextToken.2 hmore rfl, hline, hfinished]
      rfl

/-- The tokens of two texts, if a semicolon is the last of the first. -/
lemma tokens_ofString_append (a b : String)
    (h : (ofString a).tokens.1.getLast?.map Token.kind = some .semicolon) :
    (ofString (a ++ b)).tokens =
      ((ofString a).tokens.1 ++ (ofString b).tokens.1.map (Token.later (lineFeeds a.toList)),
        (ofString b).tokens.2.later (lineFeeds a.toList)) := by
  have hsame : ofString (a ++ b) = (ofString a).append b.toList := by
    unfold ofString append
    rw [String.toList_append]
  have hlater : Scanner.mk b.toList ((ofString a).line + lineFeeds (ofString a).rest)
      (ofString a).finished = (ofString b).later (lineFeeds a.toList) := rfl
  rw [hsame, tokens_append _ _ h, hlater, tokens_later]

-- without the semicolon the two names are one
example : (ofString "a\n;").tokens.1 ++ (ofString "b").tokens.1.map (Token.later 1) =
    (ofString "a\n;b").tokens.1 ∧ (ofString "ab").tokens.1.length = 1 := by
  decide

end Scanner

end Bhasha
