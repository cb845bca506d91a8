import Bhasha.Tree.Operator

/-!
The tree of a program.

Every node keeps the token it was read from beside what the token means: the token gives lines
to error messages and spellings to rendered text, and the meaning is what evaluation reads. The
two agree in every tree that was read from a text. Parentheses leave no node.
-/

namespace Bhasha

/-- An identifier. -/
structure Identifier where
  /-- The token it was read from. -/
  token : Token
  /-- The name it spells. -/
  name : String
deriving DecidableEq, Repr

mutual

/-- An expression. -/
inductive Expr where
  /-- A name. -/
  | ident (id : Identifier)
  /-- An integer literal. -/
  | int (token : Token) (value : Int64)
  /-- A string literal. -/
  | str (token : Token) (value : String)
  /-- A truth value. -/
  | bool (token : Token) (value : Bool)
  /-- An operator before its operand. -/
  | unary (token : Token) (op : UnaryOp) (operand : Expr)
  /-- An operator between its operands. -/
  | binary (token : Token) (op : BinaryOp) (left right : Expr)
  /-- A conditional, with or without its second branch. -/
  | cond (token : Token) (condition : Expr) (consequence : Block) (alternative : Option Block)
  /-- A function literal. -/
  | function (token : Token) (params : List Identifier) (body : Block)
  /-- A call; the token is the opening parenthesis. -/
  | call (token : Token) (callee : Expr) (args : List Expr)
  /-- An array literal. -/
  | array (token : Token) (elements : List Expr)
  /-- An element of an array; the token is the opening bracket. -/
  | index (token : Token) (base index : Expr)

/-- A statement. -/
inductive Stmt where
  /-- A binding of a name. -/
  | bind (token : Token) (id : Identifier) (value : Expr)
  /-- A return from a function, or from the program. -/
  | ret (token : Token) (value : Expr)
  /-- An expression by itself; the token is its first. -/
  | expr (token : Token) (value : Expr)

/-- The statements between braces; the token is the opening brace. -/
inductive Block where
  | mk (token : Token) (statements : List Stmt)

end

instance : Inhabited Expr := ⟨.int default 0⟩
instance : Inhabited Stmt := ⟨.expr default default⟩
instance : Inhabited Block := ⟨.mk default []⟩

/-- The opening brace of a block. -/
def Block.token : Block → Token
  | .mk token _ => token

/-- The statements of a block. -/
def Block.statements : Block → List Stmt
  | .mk _ statements => statements

/-- A function literal taken by itself, as a closure keeps it. -/
structure Lambda where
  /-- The keyword. -/
  token : Token
  /-- The parameters in order. -/
  params : List Identifier
  /-- The body. -/
  body : Block
deriving Inhabited

/-- The expression of a function literal. -/
def Lambda.toExpr (f : Lambda) : Expr :=
  .function f.token f.params f.body

/-- The expression of a statement: the value bound or returned, or the expression itself. -/
def Stmt.value : Stmt → Expr
  | .bind _ _ value => value
  | .ret _ value => value
  | .expr _ value => value

/-- A program: a sequence of statements. -/
structure Program where
  /-- The statements in order. -/
  statements : List Stmt
deriving Inhabited

end Bhasha
