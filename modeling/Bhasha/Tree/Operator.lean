import Bhasha.Token.Basic

/-!
Operators and how tightly they bind.

The signs of the language are few, and a token's kind alone says which operator it stands for
before an operand, which between two operands, and how tightly it holds the operand on its left.
-/

namespace Bhasha

/-- The operators before an operand. -/
inductive UnaryOp where
  /-- Negation of truth. -/
  | not
  /-- Negation of an integer. -/
  | neg
deriving DecidableEq, Repr

/-- The operators between two operands. -/
inductive BinaryOp where
  | add
  | sub
  | mul
  | div
  | lt
  | gt
  | eq
  | ne
deriving DecidableEq, Repr

/-- The sign of an operator before an operand. -/
def UnaryOp.sign : UnaryOp → String
  | .not => "!"
  | .neg => "-"

/-- The sign of an operator between operands. -/
def BinaryOp.sign : BinaryOp → String
  | .add => "+"
  | .sub => "-"
  | .mul => "*"
  | .div => "/"
  | .lt => "<"
  | .gt => ">"
  | .eq => "=="
  | .ne => "!="

/-- How tightly a construct holds its operands, from loose to tight. -/
inductive Precedence where
  /-- Of what continues no expression. -/
  | lowest
  /-- Of `==` and `!=`. -/
  | equality
  /-- Of `<` and `>`. -/
  | order
  /-- Of `+` and `-` between operands. -/
  | sum
  /-- Of `*` and `/`. -/
  | product
  /-- Of an operator before its operand. -/
  | unary
  /-- Of calls and indexing. -/
  | call
deriving DecidableEq, Repr

namespace Precedence

/-- The place of a precedence, from loose to tight. -/
def rank : Precedence → Nat
  | lowest => 0
  | equality => 1
  | order => 2
  | sum => 3
  | product => 4
  | unary => 5
  | call => 6

instance : LT Precedence := ⟨fun p q => p.rank < q.rank⟩

instance : LE Precedence := ⟨fun p q => p.rank ≤ q.rank⟩

instance (p q : Precedence) : Decidable (p < q) :=
  inferInstanceAs (Decidable (p.rank < q.rank))

instance (p q : Precedence) : Decidable (p ≤ q) :=
  inferInstanceAs (Decidable (p.rank ≤ q.rank))

end Precedence

/-- The precedence of an operator between operands. -/
def BinaryOp.precedence : BinaryOp → Precedence
  | .eq | .ne => .equality
  | .lt | .gt => .order
  | .add | .sub => .sum
  | .mul | .div => .product

namespace Kind

/-- The operator that a kind stands for before an operand. -/
def unaryOp? : Kind → Option UnaryOp
  | bang => some .not
  | minus => some .neg
  | _ => none

/-- The operator that a kind stands for between operands. -/
def binaryOp? : Kind → Option BinaryOp
  | plus => some .add
  | minus => some .sub
  | asterisk => some .mul
  | slash => some .div
  | lt => some .lt
  | gt => some .gt
  | eq => some .eq
  | notEq => some .ne
  | _ => none

/-- How tightly a token of this kind holds the expression on its left; the lowest precedence
if it cannot continue an expression. -/
def precedence : Kind → Precedence
  | eq | notEq => .equality
  | lt | gt => .order
  | plus | minus => .sum
  | asterisk | slash => .product
  | lparen | lbracket => .call
  | _ => .lowest

end Kind

end Bhasha
