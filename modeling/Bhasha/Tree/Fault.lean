import Bhasha.Token.Basic

/-!
Faults in the text of a program.

Reading a program never stops at a fault: the fault is noted and reading goes on, so a text can
have many. A fault says what was wrong and on which line.
-/

namespace Bhasha

/-- What can be wrong with the text of a program. -/
inductive SyntaxFault where
  /-- A token of one kind had to follow, and one of another kind did. -/
  | unexpectedToken (expected found : Kind) (line : Nat)
  /-- An expression had to start with a token that starts none. -/
  | noExpression (kind : Kind) (line : Nat)
  /-- An integer literal that does not fit. -/
  | invalidInteger (literal : String) (line : Nat)
deriving DecidableEq, Repr

namespace SyntaxFault

/-- The line of a fault. -/
def line : SyntaxFault → Nat
  | unexpectedToken _ _ line => line
  | noExpression _ line => line
  | invalidInteger _ line => line

/-- What a fault says, without its line. -/
def cause : SyntaxFault → String
  | unexpectedToken expected found _ =>
    "expected next token to be " ++ expected.name ++ ", got " ++ found.name ++ " instead."
  | noExpression kind _ => "no prefix parse function for " ++ kind.name ++ " found."
  | invalidInteger literal _ => "could not parse " ++ literal ++ " as integer."

/-- The message of a fault. -/
def message (f : SyntaxFault) : String :=
  "Error on line " ++ toString f.line ++ ": " ++ f.cause

end SyntaxFault

end Bhasha
