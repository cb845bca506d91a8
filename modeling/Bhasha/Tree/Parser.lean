import Bhasha.Tree.Basic
import Bhasha.Tree.Cursor
import Bhasha.Number

/-!
Reading a tree.

An expression is read in two steps. The token it starts with says what stands at its left end;
then, as long as the next token holds what was read so far more tightly than the surrounding
context does, the expression is continued by an operator and its right operand, by a call, or
by an index. All operators associate to the left.

Reading ends because it moves forward. Every part of an expression is read behind at least one
token of the expression itself, so the number of tokens still ahead bounds how deep expressions
nest, and each round of a loop takes a token too. The functions that loop take that number as
an argument, and where it is zero the end of the text has been reached and the loop is over.

The pieces of the grammar are given the reader of expressions, `expression`, as an argument;
only `expressionWithin` ties the knot.

Each piece starts on its first token and ends on its last, so a caller moves on by one token.
-/

namespace Bhasha

namespace Reader

/-! ## Lists -/

/-- The rest of a list: as long as a comma follows, another `item`. -/
def moreItems {α : Type} (item : Reader α) : Nat → Reader (List α)
  | 0 => pure []
  | n + 1 => do
    if (← get).peek.kind = .comma then
      advance
      let a ← item
      let rest ← moreItems item n
      return a :: rest
    else
      return []

/-- The items between the current token and the closing one, with commas between them. -/
def items {α : Type} (item : Reader α) (close : Kind) : Reader (List α) := do
  if (← get).peek.kind = close then
    advance
    return []
  else
    let a ← item
    let rest ← moreItems item (← get).ahead.length
    expect close
    return a :: rest

/-- The name of a parameter, behind the current token. -/
def parameter : Reader Identifier := do
  expect .ident
  let token := (← get).current
  return ⟨token, token.literal⟩

/-- The parameters of a function literal, behind its opening parenthesis. -/
def parameters : Reader (List Identifier) :=
  items parameter .rparen

variable (expression : Precedence → Reader Expr)

/-- The whole expression behind the current token. -/
def operand : Reader Expr := do
  advance
  expression .lowest

/-! ## Statements -/

/-- The end of a binding or a return: a semicolon. It may be left out before a closing brace and
at the end of the text; elsewhere its absence is noted, and the statement stands. -/
def statementEnd : Reader Unit := do
  let next := (← get).peek
  match next.kind with
  | .semicolon => advance
  | .rbrace | .eof => pure ()
  | found => note (.unexpectedToken .semicolon found next.line)

/-- A binding, from its keyword on. -/
def binding : Reader Stmt := do
  let token := (← get).current
  expect .ident
  let name := (← get).current
  expect .assign
  let value ← operand expression
  statementEnd
  return .bind token ⟨name, name.literal⟩ value

/-- A return, from its keyword on. -/
def returning : Reader Stmt := do
  let token := (← get).current
  let value ← operand expression
  statementEnd
  return .ret token value

/-- An expression as a statement; a semicolon behind it belongs to it. -/
def expressionStatement : Reader Stmt := do
  let token := (← get).current
  let value ← expression .lowest
  if (← get).peek.kind = .semicolon then
    advance
  return .expr token value

/-- A statement. -/
def statement : Reader Stmt := do
  match (← get).current.kind with
  | .kwLet => binding expression
  | .kwReturn => returning expression
  | _ => expressionStatement expression

/-- Statements up to a token that `stop` accepts, or up to the end of the text. A statement that
was abandoned is left out, and reading goes on behind the token it was abandoned on. -/
def statementsUntil (stop : Kind → Bool) : Nat → Reader (List Stmt)
  | 0 => pure []
  | n + 1 => do
    let kind := (← get).current.kind
    if stop kind || kind == .eof then
      return []
    else
      let statement? ← attempt (statement expression)
      advance
      let rest ← statementsUntil stop n
      return statement?.toList ++ rest

/-- A block, from its opening brace on. -/
def block : Reader Block := do
  let token := (← get).current
  advance
  let statements ← statementsUntil expression (· == .rbrace) (← get).ahead.length
  let last := (← get).current
  if last.kind = .eof then
    abandon (.unexpectedToken .rbrace .eof last.line)
  else
    return .mk token statements

/-! ## The left end of an expression -/

/-- Note that no expression starts with the current token. -/
def noExpression : Reader Expr := do
  let token := (← get).current
  abandon (.noExpression token.kind token.line)

/-- An integer literal. -/
def integer : Reader Expr := do
  let token := (← get).current
  match Number.ofDigits? token.literal with
  | some value => return .int token value
  | none => abandon (.invalidInteger token.literal token.line)

/-- An operator and its operand. -/
def unary (op : UnaryOp) : Reader Expr := do
  let token := (← get).current
  advance
  let value ← expression .unary
  return .unary token op value

/-- An expression in parentheses. -/
def group : Reader Expr := do
  let value ← operand expression
  expect .rparen
  return value

/-- A conditional. -/
def conditional : Reader Expr := do
  let token := (← get).current
  expect .lparen
  let condition ← operand expression
  expect .rparen
  expect .lbrace
  let consequence ← block expression
  if (← get).peek.kind = .kwElse then
    advance
    expect .lbrace
    let alternative ← block expression
    return .cond token condition consequence (some alternative)
  else
    return .cond token condition consequence none

/-- A function literal. -/
def function : Reader Expr := do
  let token := (← get).current
  expect .lparen
  let params ← parameters
  expect .lbrace
  let body ← block expression
  return .function token params body

/-- An array literal. -/
def array : Reader Expr := do
  let token := (← get).current
  let elements ← items (operand expression) .rbracket
  return .array token elements

/-- What an expression starts with. -/
def leftEnd : Reader Expr := do
  let token := (← get).current
  match token.kind with
  | .ident => return .ident ⟨token, token.literal⟩
  | .int => integer
  | .str => return .str token token.literal
  | .kwTrue => return .bool token true
  | .kwFalse => return .bool token false
  | .bang => unary expression .not
  | .minus => unary expression .neg
  | .lparen => group expression
  | .kwIf => conditional expression
  | .kwFunction => function expression
  | .lbracket => array expression
  | _ => noExpression

/-! ## What continues an expression -/

/-- The expression `left` continued by the current token and what belongs to it. -/
def continuation (left : Expr) : Reader Expr := do
  let token := (← get).current
  match token.kind with
  | .lparen =>
    let args ← items (operand expression) .rparen
    return .call token left args
  | .lbracket =>
    let index ← operand expression
    expect .rbracket
    return .index token left index
  | kind =>
    match kind.binaryOp? with
    | some op =>
      advance
      let right ← expression kind.precedence
      return .binary token op left right
    | none => return left

/-- The expression `left` with all that continues it and holds it more tightly than the context
does. -/
def continuations (context : Precedence) : Nat → Expr → Reader Expr
  | 0, left => pure left
  | n + 1, left => do
    if context < (← get).peek.kind.precedence then
      advance
      let left ← continuation expression left
      continuations context n left
    else
      return left

/-! ## Expressions and programs -/

/-- An expression in a context of the given precedence. The number bounds the tokens ahead: if it
is zero there are none, and at the end of the text no expression starts. -/
def expressionWithin : Nat → Precedence → Reader Expr
  | 0, _ => noExpression
  | n + 1, context => do
    let left ← leftEnd (expressionWithin n)
    continuations (expressionWithin n) context (← get).ahead.length left

/-- The statements from the current token to the end of the text. -/
def program : Reader Program := do
  let bound := (← get).ahead.length
  return ⟨← statementsUntil (expressionWithin bound) (fun _ => false) bound⟩

end Reader

/-! ## Reading from a cursor -/

namespace Cursor

/-- The expression at the cursor in a context of the given precedence, if there is one, and the
cursor on the last token that was read. -/
def expression (c : Cursor) (context : Precedence) : Option Expr × Cursor :=
  match Reader.expressionWithin c.ahead.length context c with
  | .ok e c => (some e, c)
  | .error _ c => (none, c)

/-- The program from the cursor to the end of the text: the statements that could be read. -/
def program (c : Cursor) : Program × Cursor :=
  match Reader.program c with
  | .ok p c => (p, c)
  | .error _ c => (⟨[]⟩, c)

end Cursor

namespace Program

/-- The program of a text, as far as it could be read, and the faults of the text in the order
they were found. -/
def read (text : String) : Program × List SyntaxFault :=
  let (p, c) := (Cursor.ofString text).program
  (p, c.faults.toList)

/-- The program of a text without faults, or the faults. -/
def parse (text : String) : Except (List SyntaxFault) Program :=
  match read text with
  | (p, []) => .ok p
  | (_, faults) => .error faults

end Program

end Bhasha
