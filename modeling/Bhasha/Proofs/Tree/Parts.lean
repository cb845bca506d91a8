import Bhasha.Tree.Basic
import Mathlib.Tactic.Common

/-!
The parts of a tree.

Two lists of parts matter to evaluation. The expressions of a tree, at any depth and in the bodies
of function literals too, are all that a run of it can ever come to. The statements of a tree that
stand outside of function literals are those that its own evaluation carries out, since the body of
a function literal has to wait for a call.
-/

namespace Bhasha

/-- The token of an expression. -/
def Expr.token : Expr → Token
  | .ident id => id.token
  | .int token _ | .str token _ | .bool token _ | .unary token _ _ | .binary token _ _ _
  | .cond token _ _ _ | .function token _ _ | .call token _ _ | .array token _
  | .index token _ _ => token

/-! ## Expressions at any depth -/

mutual

/-- The expressions inside an expression, at any depth. -/
def Expr.parts : Expr → List Expr
  | .ident _ | .int _ _ | .str _ _ | .bool _ _ => []
  | .unary _ _ operand => operand :: operand.parts
  | .binary _ _ left right => left :: left.parts ++ right :: right.parts
  | .cond _ condition consequence none => condition :: condition.parts ++ consequence.parts
  | .cond _ condition consequence (some alternative) =>
    condition :: condition.parts ++ (consequence.parts ++ alternative.parts)
  | .function _ _ body => body.parts
  | .call _ callee args => callee :: callee.parts ++ Expr.partsAll args
  | .array _ elements => Expr.partsAll elements
  | .index _ base index => base :: base.parts ++ index :: index.parts

/-- Expressions and what is inside of them. -/
def Expr.partsAll : List Expr → List Expr
  | [] => []
  | e :: rest => e :: e.parts ++ Expr.partsAll rest

/-- The expressions of a statement. -/
def Stmt.parts : Stmt → List Expr
  | .bind _ _ value | .ret _ value | .expr _ value => value :: value.parts

/-- The expressions of statements. -/
def Stmt.partsAll : List Stmt → List Expr
  | [] => []
  | s :: rest => s.parts ++ Stmt.partsAll rest

/-- The expressions of a block. -/
def Block.parts : Block → List Expr
  | .mk _ statements => Stmt.partsAll statements

end

/-- The expressions of a program. -/
def Program.parts (p : Program) : List Expr :=
  Stmt.partsAll p.statements

lemma Block.parts_eq (b : Block) : b.parts = Stmt.partsAll b.statements := by
  cases b
  rw [Block.parts, Block.statements]

lemma Stmt.parts_eq (s : Stmt) : s.parts = s.value :: s.value.parts := by
  cases s <;> rw [Stmt.parts, Stmt.value]

/-- What is inside a conditional is inside its condition or one of its branches. -/
lemma Expr.forall_parts_cond {P : Expr → Prop} {token : Token} {c : Expr} {b : Block}
    {b? : Option Block} :
    (∀ d ∈ (Expr.cond token c b b?).parts, P d) ↔
      (∀ d ∈ c :: c.parts, P d) ∧ (∀ d ∈ b.parts, P d) ∧ ∀ b' ∈ b?, ∀ d ∈ b'.parts, P d := by
  cases b? <;> simp [Expr.parts, or_imp, forall_and, and_assoc]

/-! ## Statements outside of function literals -/

mutual

/-- The statements inside an expression, outside of function literals. -/
def Expr.ownStatements : Expr → List Stmt
  | .ident _ | .int _ _ | .str _ _ | .bool _ _ | .function _ _ _ => []
  | .unary _ _ operand => operand.ownStatements
  | .binary _ _ left right => left.ownStatements ++ right.ownStatements
  | .cond _ condition consequence none => condition.ownStatements ++ consequence.ownStatements
  | .cond _ condition consequence (some alternative) =>
    condition.ownStatements ++ (consequence.ownStatements ++ alternative.ownStatements)
  | .call _ callee args => callee.ownStatements ++ Expr.ownStatementsAll args
  | .array _ elements => Expr.ownStatementsAll elements
  | .index _ base index => base.ownStatements ++ index.ownStatements

/-- The statements inside expressions, outside of function literals. -/
def Expr.ownStatementsAll : List Expr → List Stmt
  | [] => []
  | e :: rest => e.ownStatements ++ Expr.ownStatementsAll rest

/-- A statement and those inside of it, outside of function literals. -/
def Stmt.ownStatements : Stmt → List Stmt
  | .bind token id value => .bind token id value :: value.ownStatements
  | .ret token value => .ret token value :: value.ownStatements
  | .expr token value => .expr token value :: value.ownStatements

/-- Statements and those inside of them, outside of function literals. -/
def Stmt.ownStatementsAll : List Stmt → List Stmt
  | [] => []
  | s :: rest => s.ownStatements ++ Stmt.ownStatementsAll rest

/-- The statements of a block, outside of function literals. -/
def Block.ownStatements : Block → List Stmt
  | .mk _ statements => Stmt.ownStatementsAll statements

end

lemma Block.ownStatements_eq (b : Block) :
    b.ownStatements = Stmt.ownStatementsAll b.statements := by
  cases b
  rw [Block.ownStatements, Block.statements]

/-- The name that a statement binds. -/
def Stmt.boundName? : Stmt → Option String
  | .bind _ id _ => some id.name
  | .ret _ _ | .expr _ _ => none

/-- The names that statements bind. -/
def Stmt.boundNames (ss : List Stmt) : List String :=
  ss.filterMap Stmt.boundName?

@[simp] lemma Stmt.boundNames_append (ss ts : List Stmt) :
    Stmt.boundNames (ss ++ ts) = Stmt.boundNames ss ++ Stmt.boundNames ts :=
  List.filterMap_append

/-- The names that an expression binds outside of function literals. -/
def Expr.lets (e : Expr) : List String :=
  Stmt.boundNames e.ownStatements

/-- The names that a statement binds outside of function literals. -/
def Stmt.lets (s : Stmt) : List String :=
  Stmt.boundNames s.ownStatements

/-- The names that a block binds outside of function literals. -/
def Block.lets (b : Block) : List String :=
  Stmt.boundNames b.ownStatements

end Bhasha
