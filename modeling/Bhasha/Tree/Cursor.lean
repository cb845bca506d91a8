import Bhasha.Token.Scanner
import Bhasha.Tree.Fault

/-!
Where the reader of a program stands.

A cursor holds the tokens from the current one on. It looks at the current token and at the one
after it, and it only ever moves forward. Behind the last token of the text the end token
stands again and again, so a cursor can look ahead without asking whether there is a token.

A piece of reading either yields a result or is abandoned. It is abandoned where it stands: the
cursor is not moved back, and the faults noted on the way stay noted.
-/

namespace Bhasha

/-- A place in the tokens of a program, and the faults noted before it. -/
structure Cursor where
  /-- The tokens from the current one on, without the end token. -/
  ahead : List Token
  /-- The end token. -/
  last : Token
  /-- The faults noted so far, oldest first. -/
  faults : Array SyntaxFault := #[]
deriving Repr

namespace Cursor

/-- The cursor at the first token of a text. -/
def ofString (text : String) : Cursor :=
  let (ahead, last) := (Scanner.ofString text).tokens
  { ahead, last }

/-- The current token. -/
def current (c : Cursor) : Token :=
  c.ahead.headD c.last

/-- The token after the current one. -/
def peek (c : Cursor) : Token :=
  c.ahead.tail.headD c.last

/-- The cursor moved to the next token; at the end it stays. -/
def advance (c : Cursor) : Cursor :=
  { c with ahead := c.ahead.tail }

/-- The cursor with one more fault noted. -/
def note (c : Cursor) (fault : SyntaxFault) : Cursor :=
  { c with faults := c.faults.push fault }

end Cursor

/-- The mark of a piece of reading that was abandoned. -/
structure Abandoned where
deriving DecidableEq, Repr

/-- A piece of reading: it moves the cursor and yields a result or is abandoned. -/
abbrev Reader := EStateM Abandoned Cursor

namespace Reader

/-- Move to the next token. -/
def advance : Reader Unit :=
  modify Cursor.advance

/-- Note a fault and go on. -/
def note (fault : SyntaxFault) : Reader Unit :=
  modify (·.note fault)

/-- Note a fault and abandon the reading. -/
def abandon {α : Type} (fault : SyntaxFault) : Reader α := do
  note fault
  throw ⟨⟩

/-- Move to the next token if it has the kind that has to follow; otherwise abandon. -/
def expect (kind : Kind) : Reader Unit := do
  let next := (← get).peek
  if next.kind = kind then
    advance
  else
    abandon (.unexpectedToken kind next.kind next.line)

/-- The result of a reading, or nothing if it was abandoned. -/
def attempt {α : Type} (read : Reader α) : Reader (Option α) := fun c =>
  match read c with
  | .ok a c => .ok (some a) c
  | .error _ c => .ok none c

end Reader

end Bhasha
