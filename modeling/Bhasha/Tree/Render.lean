import Bhasha.Tree.Basic
import Bhasha.Text.Joined

/-!
The text of a tree.

Operators and indexing are written with their parentheses, so the text of a tree can be read
back without regard to precedence. Keywords keep the spelling they were read in, with one
exception: the word before the second branch of a conditional has no token in the tree and is
written in English.
-/

namespace Bhasha

open Text (commaSeparated concat)

mutual

/-- The text of an expression. -/
def Expr.render : Expr → String
  | .ident id => id.name
  | .int token _ => token.literal
  | .str _ value => "\"" ++ value ++ "\""
  | .bool token _ => token.literal
  | .unary _ op operand => "(" ++ op.sign ++ operand.render ++ ")"
  | .binary _ op left right =>
    "(" ++ left.render ++ " " ++ op.sign ++ " " ++ right.render ++ ")"
  | .cond token condition consequence none =>
    token.literal ++ " (" ++ condition.render ++ ") " ++ consequence.render
  | .cond token condition consequence (some alternative) =>
    token.literal ++ " (" ++ condition.render ++ ") " ++ consequence.render ++ " else " ++
      alternative.render
  | .function token params body =>
    token.literal ++ "(" ++ commaSeparated (params.map Identifier.name) ++ ") " ++ body.render
  | .call _ callee args => callee.render ++ "(" ++ commaSeparated (Expr.renderAll args) ++ ")"
  | .array _ elements => "[" ++ commaSeparated (Expr.renderAll elements) ++ "]"
  | .index _ base index => "(" ++ base.render ++ "[" ++ index.render ++ "])"

/-- The texts of expressions. -/
def Expr.renderAll : List Expr → List String
  | [] => []
  | e :: rest => e.render :: Expr.renderAll rest

/-- The text of a statement. -/
def Stmt.render : Stmt → String
  | .bind token id value =>
    token.literal ++ " " ++ id.name ++ " = " ++ value.render ++ ";"
  | .ret token value => token.literal ++ " " ++ value.render ++ ";"
  | .expr _ value => value.render ++ ";"

/-- The texts of statements. -/
def Stmt.renderAll : List Stmt → List String
  | [] => []
  | s :: rest => s.render :: Stmt.renderAll rest

/-- The text of a block: each statement stands after a space. -/
def Block.render : Block → String
  | .mk _ statements =>
    "\x7b" ++ concat ((Stmt.renderAll statements).map (" " ++ ·)) ++ " \x7d"

end

/-- The text of a function literal. -/
def Lambda.render (f : Lambda) : String :=
  f.toExpr.render

/-- The text of a program: its statements with nothing between them. -/
def Program.render (p : Program) : String :=
  concat (Stmt.renderAll p.statements)

end Bhasha
