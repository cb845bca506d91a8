import Bhasha.Tree.Basic
import Bhasha.Number

/-!
The outline of a tree.

An outline lists the nodes of a tree from the root down and from left to right, each with its
depth, its form, its token and what else there is to say of the node alone. The depths give the
tree back, so an outline shows all of it, the parts that rendering leaves out included.
-/

namespace Bhasha

/-- The forms of node. -/
inductive Form where
  | binding
  | ret
  | exprStmt
  | boundName
  | param
  | ident
  | int
  | str
  | bool
  | unary
  | binary
  | cond
  | function
  | call
  | array
  | index
  | block
deriving DecidableEq, Repr

/-- A line of an outline. -/
structure Entry where
  /-- How far below the root of the outline the node stands. -/
  depth : Nat
  /-- The form of the node. -/
  form : Form
  /-- The token of the node. -/
  token : Token
  /-- What the node adds to its form: a name, a value, a sign or a count. -/
  detail : String
deriving DecidableEq, Repr

/-- The entry of an identifier in a given place. -/
def Identifier.entry (id : Identifier) (form : Form) (depth : Nat) : Entry :=
  ⟨depth, form, id.token, id.name⟩

mutual

/-- The outline of an expression whose root has a given depth. -/
def Expr.outline (depth : Nat) : Expr → List Entry
  | .ident id => [id.entry .ident depth]
  | .int token value => [⟨depth, .int, token, Number.render value⟩]
  | .str token value => [⟨depth, .str, token, value⟩]
  | .bool token value => [⟨depth, .bool, token, if value then "true" else "false"⟩]
  | .unary token op operand => ⟨depth, .unary, token, op.sign⟩ :: operand.outline (depth + 1)
  | .binary token op left right =>
    ⟨depth, .binary, token, op.sign⟩ :: (left.outline (depth + 1) ++ right.outline (depth + 1))
  | .cond token condition consequence none =>
    ⟨depth, .cond, token, ""⟩ ::
      (condition.outline (depth + 1) ++ consequence.outline (depth + 1))
  | .cond token condition consequence (some alternative) =>
    ⟨depth, .cond, token, "else"⟩ ::
      (condition.outline (depth + 1) ++ consequence.outline (depth + 1) ++
        alternative.outline (depth + 1))
  | .function token params body =>
    ⟨depth, .function, token, toString params.length⟩ ::
      (params.map (·.entry .param (depth + 1)) ++ body.outline (depth + 1))
  | .call token callee args =>
    ⟨depth, .call, token, toString args.length⟩ ::
      (callee.outline (depth + 1) ++ Expr.outlineAll (depth + 1) args)
  | .array token elements =>
    ⟨depth, .array, token, toString elements.length⟩ :: Expr.outlineAll (depth + 1) elements
  | .index token base index =>
    ⟨depth, .index, token, ""⟩ :: (base.outline (depth + 1) ++ index.outline (depth + 1))

/-- The outlines of expressions of one depth. -/
def Expr.outlineAll (depth : Nat) : List Expr → List Entry
  | [] => []
  | e :: rest => e.outline depth ++ Expr.outlineAll depth rest

/-- The outline of a statement whose root has a given depth. -/
def Stmt.outline (depth : Nat) : Stmt → List Entry
  | .bind token id value =>
    ⟨depth, .binding, token, id.name⟩ :: id.entry .boundName (depth + 1) ::
      value.outline (depth + 1)
  | .ret token value => ⟨depth, .ret, token, ""⟩ :: value.outline (depth + 1)
  | .expr token value => ⟨depth, .exprStmt, token, ""⟩ :: value.outline (depth + 1)

/-- The outlines of statements of one depth. -/
def Stmt.outlineAll (depth : Nat) : List Stmt → List Entry
  | [] => []
  | s :: rest => s.outline depth ++ Stmt.outlineAll depth rest

/-- The outline of a block whose root has a given depth. -/
def Block.outline (depth : Nat) : Block → List Entry
  | .mk token statements =>
    ⟨depth, .block, token, toString statements.length⟩ :: Stmt.outlineAll (depth + 1) statements

end

/-- The outline of a program: its statements have depth zero. -/
def Program.outline (p : Program) : List Entry :=
  Stmt.outlineAll 0 p.statements

end Bhasha
