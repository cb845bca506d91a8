import Bhasha.Proofs.Token.Respelling
import Bhasha.Proofs.Token.Rules

/-!
The tiles of a text.

The scanner is asked for one token after another. It answers with finitely many, the last of which
is the end token, and these tile the text: it is made of runs of blanks and of the lexemes of the
tokens, in order, with nothing left out. Each lexeme is the longest piece that a rule matches, or
one character where none does, and each token carries the line on which its lexeme begins. The
scanner itself only ever looks ahead: all that it knows of the text before it is the count of the
lines, and that is what a step has to keep right (`exists_tile`).
-/

namespace Bhasha

lemma lineFeeds_append (cs ds : List Char) : lineFeeds (cs ++ ds) = lineFeeds cs + lineFeeds ds :=
  List.count_append

/-- The literal of a string is what stands between its quotation marks. -/
lemma Lexeme.literal_of_str {l : Lexeme} {ds closing : List Char} (hk : l.kind = .str)
    (htext : l.text = '"' :: (ds ++ closing)) (hds : ∀ d ∈ ds, d ≠ '"')
    (hclosing : ∀ d ∈ closing, d = '"') : l.literal = String.ofList ds := by
  have hinside : ds.filter (· != '"') = ds :=
    List.filter_eq_self.2 fun d hd => bne_iff_ne.2 (hds d hd)
  have hmark : closing.filter (· != '"') = [] :=
    List.filter_eq_nil_iff.2 fun d hd => by simp [hclosing d hd]
  rw [literal, hk]
  show String.ofList (l.text.filter (· != '"')) = String.ofList ds
  rw [htext, List.filter_cons_of_neg (by decide), List.filter_append, hinside, hmark,
    List.append_nil]

/-- The literal of a string is the text up to its closing quotation mark or to the end. -/
lemma Begins.exists_literal_append {l : Lexeme} {rest : List Char} (h : Begins (l.text ++ rest) l)
    (hk : l.kind = .str) :
    ∃ closing, l.text = '"' :: (l.literal.toList ++ closing) ∧
      (∀ c ∈ l.literal.toList, c ≠ '"') ∧ (closing = ['"'] ∨ closing = [] ∧ rest = []) := by
  obtain ⟨ds, closing, htext, hds, hclosing⟩ := h.exists_of_str hk
  have hmark : ∀ d ∈ closing, d = '"' := by
    intro d hd
    rcases hclosing with rfl | ⟨rfl, -⟩
    · exact List.mem_singleton.1 hd
    · cases hd
  refine ⟨closing, ?_⟩
  rw [Lexeme.literal_of_str hk htext hds hmark, String.toList_ofList]
  exact ⟨htext, hds, hclosing⟩

/-! ## Tilings -/

/-- A token, its lexeme, and the blanks before that. -/
structure Tile where
  blanks : List Char
  lexeme : List Char
  token : Token

namespace Tile

/-- The piece of text that the tile covers. -/
def text (tile : Tile) : List Char :=
  tile.blanks ++ tile.lexeme

/-- The tile is right where it lies, between what is before it and what is behind it. -/
structure Fits (before : List Char) (tile : Tile) (behind : List Char) : Prop where
  blank : ∀ b ∈ tile.blanks, isBlank b
  begins : Begins (tile.lexeme ++ behind) ⟨tile.token.kind, tile.lexeme⟩
  kind_ne : tile.token.kind ≠ .eof ∧ tile.token.kind ≠ .blank
  word : IsWord tile.lexeme → tile.token.kind = Kind.ofWord tile.token.literal
  literal : tile.token.kind ≠ .str → tile.token.literal.toList = tile.lexeme
  string : tile.token.kind = .str → ∃ closing,
    tile.lexeme = '"' :: (tile.token.literal.toList ++ closing) ∧
      (∀ c ∈ tile.token.literal.toList, c ≠ '"') ∧ (closing = ['"'] ∨ closing = [] ∧ behind = [])
  line : tile.token.line = 1 + lineFeeds (before ++ tile.blanks)

end Tile

/-- The tiles and then some blanks cover the text, which stands behind what is given as earlier. -/
structure Tiles (earlier text : List Char) (tiles : List Tile) (trailing : List Char) : Prop where
  text_eq : text = tiles.flatMap Tile.text ++ trailing
  blank : ∀ b ∈ trailing, isBlank b
  fits : ∀ before tile after, tiles = before ++ tile :: after →
    tile.Fits (earlier ++ before.flatMap Tile.text) (after.flatMap Tile.text ++ trailing)

namespace Tiles

variable {earlier text trailing : List Char} {tile : Tile} {tiles : List Tile}

lemma nil (h : ∀ b ∈ text, isBlank b) : Tiles earlier text [] text :=
  ⟨rfl, h, fun before tile after heq => by cases before <;> cases heq⟩

/-- One tile more in front. -/
lemma cons (hfits : tile.Fits earlier text) (h : Tiles (earlier ++ tile.text) text tiles trailing) :
    Tiles earlier (tile.text ++ text) (tile :: tiles) trailing := by
  refine ⟨?_, h.blank, fun before t after heq => ?_⟩
  · rw [List.flatMap_cons, List.append_assoc, ← h.text_eq]
  · cases before with
    | nil =>
      obtain ⟨rfl, rfl⟩ := List.cons.inj heq
      rwa [List.flatMap_nil, List.append_nil, ← h.text_eq]
    | cons b before =>
      obtain ⟨rfl, rfl⟩ := List.cons.inj heq
      rw [List.flatMap_cons, ← List.append_assoc]
      exact h.fits before t after rfl

end Tiles

/-! ## The tiles that the scanner lays -/

namespace Scanner

variable {s : Scanner} {earlier blanks rest : List Char} {c : Char} {ds : List Char}

lemma Cuts.fits (h : s.Cuts blanks c ds rest) (hline : s.line = 1 + lineFeeds earlier) :
    Tile.Fits earlier ⟨blanks, c :: ds, s.nextToken.1⟩ rest := by
  have hbegins := Lexeme.begins_first h.start (ds ++ rest)
  have hkind := hbegins.kind_ne h.start
  rw [h.nextToken_eq]
  rw [← List.cons_append] at hbegins
  have htext := h.lexeme
  generalize Lexeme.first c (ds ++ rest) = l at hbegins hkind htext ⊢
  obtain ⟨k, text⟩ := l
  obtain rfl : text = c :: ds := htext
  refine ⟨h.blank, hbegins, hkind, fun hword => ?_, fun hk => ?_, fun hk => ?_, ?_⟩
  · show k = Kind.ofWord _
    have hofWord : k = Kind.ofWord (String.ofList (c :: ds)) := hbegins.kind_eq_ofWord hword
    have hne : k ≠ .str := by
      rw [hofWord]
      exact Kind.ofWord_ne _ rfl
    rw [Lexeme.literal_of_ne_str hne, ← hofWord]
  · show (Lexeme.literal ⟨k, c :: ds⟩).toList = c :: ds
    rw [Lexeme.literal_of_ne_str hk, String.toList_ofList]
  · exact Begins.exists_literal_append (l := ⟨k, c :: ds⟩) hbegins hk
  · show s.line + lineFeeds blanks = 1 + lineFeeds (earlier ++ blanks)
    rw [hline, lineFeeds_append]
    omega

/-- The end token comes when only blanks are left. -/
lemma nextToken_of_eof (h : s.nextToken.1.kind = .eof) :
    (∀ b ∈ s.rest, isBlank b) ∧ s.nextToken.1 = ⟨.eof, "", s.line + lineFeeds s.rest⟩ := by
  cases hdrop : s.rest.dropWhile isBlank with
  | nil =>
    have hblank : ∀ b ∈ s.rest, isBlank b := List.dropWhile_eq_nil_iff.1 hdrop
    have htake : s.rest.takeWhile isBlank = s.rest := List.takeWhile_eq_self_iff.2 hblank
    refine ⟨hblank, ?_⟩
    rw [nextToken]
    simp only [skipBlanks, hdrop, htake]
  | cons c cs =>
    rw [nextToken] at h
    simp only [skipBlanks, hdrop] at h
    rcases Lexeme.rule_first c cs with hrule | hillegal
    · exact absurd h hrule.kind_ne_eof
    · rw [hillegal] at h
      cases h

/-- The scanner lays one tile, and keeps count of the lines. -/
lemma exists_tile (h : s.nextToken.1.kind ≠ .eof) (hline : s.line = 1 + lineFeeds earlier) :
    ∃ tile : Tile, tile.token = s.nextToken.1 ∧ s.rest = tile.text ++ s.nextToken.2.rest ∧
      tile.Fits earlier s.nextToken.2.rest ∧
      s.nextToken.2.line = 1 + lineFeeds (earlier ++ tile.text) := by
  obtain ⟨blanks, c, ds, rest, hcuts⟩ := exists_cuts h
  have hrest : s.nextToken.2.rest = rest := by rw [hcuts.nextToken_eq]
  have hline' : s.nextToken.2.line = s.line + lineFeeds blanks + lineFeeds (c :: ds) := by
    rw [hcuts.nextToken_eq]
  refine ⟨⟨blanks, c :: ds, s.nextToken.1⟩, rfl, ?_, ?_, ?_⟩
  · rw [hcuts.text, hrest, Tile.text, List.append_assoc, List.cons_append]
  · rw [hrest]
    exact hcuts.fits hline
  · rw [hline', hline]
    show 1 + lineFeeds earlier + lineFeeds blanks + lineFeeds (c :: ds) =
      1 + lineFeeds (earlier ++ (blanks ++ c :: ds))
    rw [lineFeeds_append, lineFeeds_append]
    omega

/-- The tokens of a text tile it. -/
lemma exists_tiles (s : Scanner) (earlier : List Char) (hline : s.line = 1 + lineFeeds earlier) :
    ∃ tiles trailing, Tiles earlier s.rest tiles trailing ∧
      s.tokens = (tiles.map Tile.token, ⟨.eof, "", 1 + lineFeeds (earlier ++ s.rest)⟩) := by
  induction hn : s.rest.length using Nat.strong_induction_on generalizing s earlier with
  | _ n ih =>
    by_cases h : s.nextToken.1.kind = .eof
    · obtain ⟨hblank, htoken⟩ := nextToken_of_eof h
      refine ⟨[], s.rest, .nil hblank, ?_⟩
      rw [tokens_of_eof h, htoken, hline, lineFeeds_append, Nat.add_assoc]
      rfl
    · obtain ⟨tile, htoken, htext, hfits, hline'⟩ := exists_tile h hline
      have hlt := s.length_rest_nextToken_lt h
      obtain ⟨tiles, trailing, htiles, htokens⟩ := ih _ (hn ▸ hlt) s.nextToken.2 _ hline' rfl
      refine ⟨tile :: tiles, trailing, ?_, ?_⟩
      · rw [htext]
        exact .cons hfits htiles
      · rw [tokens_of_ne_eof h, htokens, htext, List.append_assoc, List.map_cons, htoken]

/-! ## One token after another -/

/-- Asked for one token after another, the scanner gives these, and then no more. -/
inductive Yields : Scanner → List Token → Prop
  | done {s : Scanner} : s.next?.1 = none → Yields s []
  | next {s s' : Scanner} {t : Token} {ts : List Token} :
      s.next? = (some t, s') → Yields s' ts → Yields s (t :: ts)

lemma next?_of_not_finished (h : s.finished = false) :
    s.next? = (some s.nextToken.1,
      { s.nextToken.2 with finished := s.nextToken.1.kind == .eof }) := by
  rw [next?, h]
  rfl

lemma finished_nextToken (s : Scanner) : s.nextToken.2.finished = s.finished := by
  rw [nextToken]
  dsimp only
  split <;> rfl

lemma yields_tokens (s : Scanner) (hs : s.finished = false) :
    s.Yields (s.tokens.1 ++ [s.tokens.2]) := by
  induction hn : s.rest.length using Nat.strong_induction_on generalizing s with
  | _ n ih =>
    have hnext := next?_of_not_finished hs
    by_cases h : s.nextToken.1.kind = .eof
    · rw [tokens_of_eof h]
      rw [h] at hnext
      exact .next hnext (.done rfl)
    · have hs' : s.nextToken.2.finished = false := by rw [finished_nextToken, hs]
      have hsame :
          { s.nextToken.2 with finished := s.nextToken.1.kind == .eof } = s.nextToken.2 := by
        rw [beq_eq_false_iff_ne.2 h, ← hs']
      rw [hsame] at hnext
      rw [tokens_of_ne_eof h]
      exact .next hnext (ih _ (hn ▸ s.length_rest_nextToken_lt h) s.nextToken.2 hs' rfl)

/-- Every text is read to its end, and its tokens tile it. Asked for one token after another, the
scanner gives finitely many, and the last one is the end token, which has an empty literal and
counts all line feeds of the text. The text is made of the tiles of the other tokens, each right
where it lies, and of blanks at the end. -/
theorem yields_tiles (text : String) :
    ∃ tiles trailing, Tiles [] text.toList tiles trailing ∧
      (ofString text).Yields
        (tiles.map Tile.token ++ [⟨.eof, "", 1 + lineFeeds text.toList⟩]) := by
  obtain ⟨tiles, trailing, htiles, htokens⟩ := (ofString text).exists_tiles [] rfl
  have hyields := (ofString text).yields_tokens rfl
  rw [htokens] at hyields
  exact ⟨tiles, trailing, htiles, hyields⟩

-- the line feeds of a string count for what follows it, and not for the string itself
example : (ofString "\n\"a\nb\" ===\n\"").tokens =
    ([⟨.str, "a\nb", 2⟩, ⟨.eq, "==", 3⟩, ⟨.assign, "=", 3⟩, ⟨.str, "", 4⟩], ⟨.eof, "", 4⟩) := by
  decide

end Scanner

end Bhasha
