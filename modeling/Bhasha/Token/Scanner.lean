import Bhasha.Token.Basic

/-!
The scanner.

The scanner stands before the text that is still to be read. One step skips the blanks it
stands before, cuts the longest lexeme that starts there, and makes a token of it. Nothing is
ever an error here: a character that starts no lexeme is a token of kind `illegal`, and a
string without a closing quotation mark runs to the end of the text.

Lines are counted by line feeds alone. A token carries the line of its first character, so the
line feeds inside a string count for what follows it.
-/

namespace Bhasha

/-! ## Classes of characters -/

/-- The characters between tokens. -/
def isBlank (c : Char) : Bool :=
  c == ' ' || c == '\t' || c == '\r' || c == '\n'

/-- The characters that start a word: a letter of the Latin alphabet, the underscore, or any
character of the Bengali block. -/
def isWordStart (c : Char) : Bool :=
  c.isAlpha || c == '_' || (0x980 ≤ c.toNat && c.toNat ≤ 0x9FF)

/-- The characters of a word after its first. -/
def isWordPart (c : Char) : Bool :=
  isWordStart c || c.isDigit

/-- The number of line feeds in a piece of text. -/
def lineFeeds (cs : List Char) : Nat :=
  cs.count '\n'

/-! ## Lexemes -/

/-- A lexeme: a piece of the text that makes one token. -/
structure Lexeme where
  /-- The kind of the token. -/
  kind : Kind
  /-- The characters of the lexeme, quotation marks included. -/
  text : List Char
deriving DecidableEq, Repr

namespace Lexeme

/-- The string lexeme after an opening quotation mark: up to and with the next quotation mark, or
all of the text if there is none. -/
def quoted (cs : List Char) : List Char :=
  cs.takeWhile (· != '"') ++ (cs.dropWhile (· != '"')).take 1

/-- The lexeme of a sign; two signs have a longer form that ends in an equals sign. -/
def sign (c : Char) (cs : List Char) : Lexeme :=
  let followed := cs.head? == some '='
  match c with
  | '=' => if followed then ⟨.eq, ['=', '=']⟩ else ⟨.assign, ['=']⟩
  | '!' => if followed then ⟨.notEq, ['!', '=']⟩ else ⟨.bang, ['!']⟩
  | '+' => ⟨.plus, ['+']⟩
  | '-' => ⟨.minus, ['-']⟩
  | '*' => ⟨.asterisk, ['*']⟩
  | '/' => ⟨.slash, ['/']⟩
  | '<' => ⟨.lt, ['<']⟩
  | '>' => ⟨.gt, ['>']⟩
  | ',' => ⟨.comma, [',']⟩
  | ';' => ⟨.semicolon, [';']⟩
  | ':' => ⟨.colon, [':']⟩
  | '(' => ⟨.lparen, ['(']⟩
  | ')' => ⟨.rparen, [')']⟩
  | '\x7b' => ⟨.lbrace, ['\x7b']⟩
  | '\x7d' => ⟨.rbrace, ['\x7d']⟩
  | '[' => ⟨.lbracket, ['[']⟩
  | ']' => ⟨.rbracket, [']']⟩
  | c => ⟨.illegal, [c]⟩

/-- The lexeme at the start of the text `c :: cs`, which does not start with a blank. -/
def first (c : Char) (cs : List Char) : Lexeme :=
  if isWordStart c then
    let word := c :: cs.takeWhile isWordPart
    ⟨Kind.ofWord (String.ofList word), word⟩
  else if c.isDigit then
    ⟨.int, c :: cs.takeWhile Char.isDigit⟩
  else if c == '"' then
    ⟨.str, c :: quoted cs⟩
  else
    sign c cs

/-- The literal of the token a lexeme makes: a string loses its quotation marks. -/
def literal (l : Lexeme) : String :=
  match l.kind with
  | .str => String.ofList (l.text.filter (· != '"'))
  | _ => String.ofList l.text

/-- The rest of a string lexeme stands at the start of the text. -/
theorem quoted_isPrefix (cs : List Char) : quoted cs <+: cs := by
  unfold quoted
  have h : cs.takeWhile (· != '"') ++ cs.dropWhile (· != '"') = cs :=
    List.takeWhile_append_dropWhile
  exact ⟨(cs.dropWhile (· != '"')).drop 1, by rw [List.append_assoc, List.take_append_drop, h]⟩

/-- The lexeme of a sign stands at the start of the text. -/
theorem sign_text_isPrefix (c : Char) (cs : List Char) : (sign c cs).text <+: c :: cs := by
  have single : ∀ d : Char, [d] <+: d :: cs := fun d => ⟨cs, rfl⟩
  have double : ∀ d : Char, (cs.head? == some '=') = true → [d, '='] <+: d :: cs := by
    intro d h
    match cs, h with
    | e :: rest, h =>
      have he : e = '=' := by simpa using h
      exact ⟨rest, by rw [he]; rfl⟩
  unfold sign
  dsimp only
  split <;> first
    | exact single _
    | (split
       · exact double _ (by assumption)
       · exact single _)

/-- The first lexeme stands at the start of the text. -/
theorem first_text_isPrefix (c : Char) (cs : List Char) : (first c cs).text <+: c :: cs := by
  unfold first
  split
  · exact List.cons_prefix_cons.2 ⟨rfl, List.takeWhile_prefix _⟩
  · split
    · exact List.cons_prefix_cons.2 ⟨rfl, List.takeWhile_prefix _⟩
    · split
      · exact List.cons_prefix_cons.2 ⟨rfl, quoted_isPrefix cs⟩
      · exact sign_text_isPrefix c cs

/-- The lexeme of a sign has at least one character. -/
theorem sign_text_ne_nil (c : Char) (cs : List Char) : (sign c cs).text ≠ [] := by
  unfold sign
  dsimp only
  split <;> first
    | exact List.cons_ne_nil _ _
    | (split <;> exact List.cons_ne_nil _ _)

/-- A lexeme has at least one character. -/
theorem first_text_ne_nil (c : Char) (cs : List Char) : (first c cs).text ≠ [] := by
  unfold first
  split
  · simp
  · split
    · simp
    · split
      · simp
      · exact sign_text_ne_nil c cs

end Lexeme

/-! ## The scanner -/

/-- Where the scanner stands. -/
structure Scanner where
  /-- The text still to be read. -/
  rest : List Char
  /-- The line of its first character. -/
  line : Nat := 1
  /-- Whether `next?` has given out the end of the text. -/
  finished : Bool := false
deriving DecidableEq, Repr

namespace Scanner

/-- A scanner at the start of a text. -/
def ofString (text : String) : Scanner :=
  { rest := text.toList }

/-- The scanner moved past the blanks it stands before. -/
def skipBlanks (s : Scanner) : Scanner :=
  { s with
    rest := s.rest.dropWhile isBlank
    line := s.line + lineFeeds (s.rest.takeWhile isBlank) }

/-- The next token and the scanner behind it. At the end of the text this is the end token, again
and again. -/
def nextToken (s : Scanner) : Token × Scanner :=
  let s := s.skipBlanks
  match s.rest with
  | [] => (⟨.eof, "", s.line⟩, s)
  | c :: cs =>
    let l := Lexeme.first c cs
    (⟨l.kind, l.literal, s.line⟩,
      { s with
        rest := (c :: cs).drop l.text.length
        line := s.line + lineFeeds l.text })

/-- Skipping blanks adds no text. -/
theorem length_skipBlanks_le (s : Scanner) : s.skipBlanks.rest.length ≤ s.rest.length :=
  (List.dropWhile_suffix _).length_le

/-- Every token but the end token takes at least one character. -/
theorem length_rest_nextToken_lt (s : Scanner) (h : s.nextToken.1.kind ≠ .eof) :
    s.nextToken.2.rest.length < s.rest.length := by
  have hle := s.length_skipBlanks_le
  unfold nextToken at h ⊢
  dsimp only at h ⊢
  split at h
  · exact absurd rfl h
  · rename_i c cs hs
    rw [hs] at hle
    have hpos : 0 < (Lexeme.first c cs).text.length :=
      List.length_pos_iff.2 (Lexeme.first_text_ne_nil c cs)
    simp only [List.length_drop, List.length_cons] at hle ⊢
    omega

/-- The next token of the sequence that ends with its first end token. -/
def next? (s : Scanner) : Option Token × Scanner :=
  if s.finished then
    (none, s)
  else
    let (token, s) := s.nextToken
    (some token, { s with finished := token.kind == .eof })

/-- The tokens before the end of the text, and the end token. The number bounds the characters
still to be read: every token but the last takes at least one of them. -/
def tokensWithin : Nat → Scanner → List Token × Token
  | 0, s => ([], s.nextToken.1)
  | n + 1, s =>
    let (token, s) := s.nextToken
    if token.kind = .eof then
      ([], token)
    else
      let (tokens, last) := tokensWithin n s
      (token :: tokens, last)

/-- The tokens before the end of the text, and the end token. -/
def tokens (s : Scanner) : List Token × Token :=
  tokensWithin s.rest.length s

end Scanner

end Bhasha
