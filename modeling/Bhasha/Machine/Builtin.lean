import Bhasha.Machine.Basic
import Bhasha.Number

/-!
What builtins do.

A builtin never changes the array it is given: those that yield an array make a new one.
-/

namespace Bhasha

/-- The arguments, if there are exactly `n` of them. -/
def exactArgs (n : Nat) (args : List Value) : Except Cause (Vector Value n) :=
  if h : args.length = n then
    .ok ⟨args.toArray, by simpa using h⟩
  else
    .error (.argumentCount n args.length)

namespace Builtin

/-- The elements of the single argument of a builtin on arrays. -/
def elements (b : Builtin) (args : List Value) : Except Cause (List Value) := do
  let args ← exactArgs 1 args
  match args[0] with
  | .array _ elements => return elements
  | other => throw (.unsupportedArgument b other.type)

/-- The number of characters or elements of the single argument. -/
def length (args : List Value) : Except Cause Value := do
  let args ← exactArgs 1 args
  let count ← match args[0] with
    | .str _ text => pure text.length
    | .array _ elements => pure elements.length
    | other => throw (.unsupportedArgument len other.type)
  match Number.ofNat? count with
  | some n => return .int n
  | none => throw .overflow

/-- The elements of the first argument with the second behind them. -/
def extended (b : Builtin) (args : List Value) : Except Cause (List Value) := do
  let args ← exactArgs 2 args
  match args[0] with
  | .array _ elements => return elements ++ [args[1]]
  | other => throw (.unsupportedArgument b other.type)

/-- What a builtin does with arguments whose number was not looked at. -/
def body (b : Builtin) (args : List Value) (line : Nat) : Eval Value := do
  match b with
  | len => Eval.check line (length args)
  | first | head =>
    let elements ← Eval.check line (b.elements args)
    return elements.head?.getD .null
  | last =>
    let elements ← Eval.check line (b.elements args)
    return elements.getLast?.getD .null
  | rest | tail =>
    match ← Eval.check line (b.elements args) with
    | [] => return .null
    | _ :: others => Eval.newArray others
  | push | append =>
    let elements ← Eval.check line (b.extended args)
    Eval.newArray elements
  | print | puts =>
    args.forM Eval.print
    return .null

/-- A call of a builtin. -/
def call (b : Builtin) (args : List Value) (line : Nat) : Eval Value :=
  match b.arity.check args.length with
  | .ok () => b.body args line
  | .error count => Eval.fail (.argumentCount count args.length) line

end Builtin

end Bhasha
