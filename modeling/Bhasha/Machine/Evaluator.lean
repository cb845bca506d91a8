import Bhasha.Machine.Builtin
import Bhasha.Machine.Operator

/-!
Running programs.

The parts of a construct are evaluated from left to right, and the first interrupt ends them
all. A call runs the body of a closure in a new environment inside the one the closure was
made in. When it ends, the frames made since it began can be reached from outside through its
result alone, so those that the result does not reach are given back at once. The others are
left to the call around it, and in the outermost call to the next collection.

The meaning of a construct is given by the meaning of its expressions, `eval`, which is an
argument here; only `expression` ties the knot. It takes the depth to which evaluations may
nest, and the language has no other way to run on than to nest ever deeper: programs repeat by
calling.
-/

namespace Bhasha

/-- When the frames of a call are given back. -/
inductive ReleasePolicy where
  /-- When the call ends. -/
  | eager
  /-- Not before the next collection. -/
  | deferred
deriving DecidableEq, Repr

namespace Eval

/-! ## Statements -/

section Statements

variable (eval : Expr → Env → Eval Value)

/-- A statement: bindings have no value. -/
def statement (s : Stmt) (env : Env) : Eval (Option Value) :=
  match s with
  | .bind _ id value => do
    define env id.name (← eval value env)
    return none
  | .ret _ value => do throw (.returned (← eval value env))
  | .expr _ value => do return some (← eval value env)

/-- Statements in order; the value is that of the last, or `result` if there is none. -/
def statements (env : Env) : Option Value → List Stmt → Eval (Option Value)
  | result, [] => pure result
  | _, s :: rest => do
    let result ← statement eval s env
    statements env result rest

/-- A block, in the environment around it. -/
def block (b : Block) (env : Env) : Eval (Option Value) :=
  statements eval env none b.statements

/-- Statements of a program in order: a return ends the program with its value. -/
def programStatements (env : Env) : Option Value → List Stmt → Eval (Option Value)
  | result, [] => pure result
  | _, s :: rest => do
    match ← attempt (statement eval s env) with
    | .ok result => programStatements env result rest
    | .error (.returned value) => return some value
    | .error interrupt => throw interrupt

end Statements

/-! ## Calls -/

/-- The number of frames of calls in progress. It is kept out of line so that it is read before the
frames change, and not when it is used: the frames would have to be copied for that. -/
@[noinline]
def callFrameCount : Eval Nat :=
  return (← get).callFrames.size

/-- Give back the frames of calls made since there were `mark` of them, as far as the result does
not reach them. -/
def releaseCallFrames (policy : ReleasePolicy) (mark : Nat) (result : Value) : Eval Unit :=
  match policy with
  | .deferred => pure ()
  | .eager => modify fun m =>
    let frames := (m.callFrames.extract mark).toList
    let (kept, heap) := m.heap.release frames result
    let outer := m.callFrames.shrink mark
    { m with heap, callFrames := if mark = 0 then outer else outer ++ kept.toArray }

/-- The environment of a call: a new one inside `env`, with the parameters bound in order. -/
def enter (params : List Identifier) (args : List Value) (env : Env) : Eval Env := do
  let scope ← newEnv (some env)
  modify fun m => { m with callFrames := m.callFrames.push scope }
  (params.zip args).forM fun (param, arg) => define scope param.name arg
  return scope

/-- How a call ends whose body ended in a given way: a return ends the call with its value, and a
body without a value yields null. -/
def callResult : Except Interrupt (Option Value) → Except Interrupt Value
  | .ok value => .ok (value.getD .null)
  | .error (.returned value) => .ok value
  | .error interrupt => .error interrupt

section Calls

variable (policy : ReleasePolicy) (eval : Expr → Env → Eval Value)

/-- A call of a closure. -/
def applyClosure (lambda : Lambda) (env : Env) (args : List Value) (line : Nat) : Eval Value := do
  if lambda.params.length = args.length then
    let mark ← callFrameCount
    let scope ← enter lambda.params args env
    let result := callResult (← attempt (block eval lambda.body scope))
    releaseCallFrames policy mark (result.toOption.getD .null)
    match result with
    | .ok value => return value
    | .error interrupt => throw interrupt
  else
    fail (.argumentCount lambda.params.length args.length) line

/-- A call of a value. -/
def apply (callee : Value) (args : List Value) (line : Nat) : Eval Value :=
  match callee with
  | .closure _ lambda env => applyClosure policy eval lambda env args line
  | .builtin b => b.call args line
  | other => fail (.notAFunction other.type) line

/-! ## Expressions -/

/-- Expressions from left to right. -/
def expressions (env : Env) : List Expr → Eval (List Value)
  | [] => pure []
  | e :: rest => do
    let value ← eval e env
    let values ← expressions env rest
    return value :: values

/-- A branch of a conditional; a branch without a value, or none at all, yields null. -/
def branch (env : Env) : Option Block → Eval Value
  | some b => do return (← block eval b env).getD .null
  | none => pure .null

/-- One construct, whose parts `eval` evaluates. -/
def construct (e : Expr) (env : Env) : Eval Value :=
  match e with
  | .ident id => lookup env id
  | .int _ value => pure (.int value)
  | .str _ value => newString value
  | .bool _ value => pure (.bool value)
  | .unary token op operand => do
    let value ← eval operand env
    unary op value token.line
  | .binary token op left right => do
    let left ← eval left env
    let right ← eval right env
    binary op left right token.line
  | .cond _ condition consequence alternative => do
    let chosen := (← eval condition env).truthy
    branch eval env (if chosen then some consequence else alternative)
  | .function token params body => newClosure ⟨token, params, body⟩ env
  | .call token callee args => do
    let callee ← eval callee env
    let args ← expressions eval env args
    apply policy eval callee args token.line
  | .array _ elements => do newArray (← expressions eval env elements)
  | .index token base index => do
    let base ← eval base env
    let index ← eval index env
    Eval.index base index token.line

end Calls

/-- An expression, evaluated to a depth of no more than a given number of constructs. -/
def expression (policy : ReleasePolicy) : Nat → Expr → Env → Eval Value
  | 0, _, _ => throw .exhausted
  | depth + 1, e, env => construct policy (expression policy depth) e env

/-- A program. -/
def program (policy : ReleasePolicy) (depth : Nat) (p : Program) (env : Env) :
    Eval (Option Value) :=
  programStatements (expression policy depth) env none p.statements

/-- An evaluation seen from outside: a return is the value it returns. -/
def finish (x : Eval (Option Value)) : Eval (Option Value) := do
  match ← attempt x with
  | .ok value => return value
  | .error (.returned value) => return some value
  | .error interrupt => throw interrupt

end Eval

/-- A node of a tree that can be evaluated by itself. -/
inductive Node where
  | program (p : Program)
  | stmt (s : Stmt)
  | block (b : Block)
  | expr (e : Expr)

/-- A node seen from outside. -/
def Eval.node (policy : ReleasePolicy) (depth : Nat) (n : Node) (env : Env) : Eval (Option Value) :=
  match n with
  | .program p => program policy depth p env
  | .stmt s => finish (statement (expression policy depth) s env)
  | .block b => finish (block (expression policy depth) b env)
  | .expr e => finish (some <$> expression policy depth e env)

end Bhasha
