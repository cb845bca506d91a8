import Bhasha.Heap.Reclaim
import Bhasha.Machine.Fault

/-!
The machine that programs run on.

A machine holds the heap of environments, the frames of the calls in progress, the number of the
next object, and what was printed. An evaluation changes the machine and yields a result, or it is
interrupted: by a return, which ends the call around it, or by a fault, which ends the program.
An evaluation that nests deeper than it was allowed to is interrupted too; that is no fault of
the program, and a greater depth can always be allowed.
-/

namespace Bhasha

/-- The state of a run. -/
structure Machine where
  /-- The environments. -/
  heap : Heap
  /-- The frames made by the calls in progress, oldest first. -/
  callFrames : Array Env := #[]
  /-- The identity of the next object. -/
  nextObject : ObjectId := 0
  /-- The values printed so far, each on a line of its own. -/
  printed : Array Value := #[]
deriving Inhabited

/-- The handle of the outermost environment, the first to be made. -/
def Env.global : Env := ⟨0, 0⟩

/-- A machine whose only environment is the outermost one, without bindings. -/
def Machine.initial : Machine :=
  { heap := (Heap.empty.allocate none).2 }

/-- What interrupts an evaluation. -/
inductive Interrupt where
  /-- A return with its value. -/
  | returned (value : Value)
  /-- A fault. -/
  | failed (fault : Fault)
  /-- The depth allowed to the evaluation was used up. -/
  | exhausted
deriving Inhabited

/-- An evaluation on a machine. -/
abbrev Eval := EStateM Interrupt Machine

namespace Eval

/-- Fail with a cause on a line. -/
def fail {α : Type} (cause : Cause) (line : Nat) : Eval α :=
  throw (.failed ⟨cause, line⟩)

/-- The result of an operation, whose failure is a fault on the given line. -/
def check {α : Type} (line : Nat) : Except Cause α → Eval α
  | .ok a => pure a
  | .error cause => fail cause line

/-- The result of an evaluation, or what interrupted it, as a value. -/
def attempt {α : Type} (x : Eval α) : Eval (Except Interrupt α) := fun m =>
  match x m with
  | .ok a m => .ok (.ok a) m
  | .error i m => .ok (.error i) m

/-- The identity of a new object. -/
def newObject : Eval ObjectId :=
  modifyGet fun m => (m.nextObject, { m with nextObject := m.nextObject + 1 })

/-- A new string. -/
def newString (text : String) : Eval Value :=
  return .str (← newObject) text

/-- A new array. -/
def newArray (elements : List Value) : Eval Value :=
  return .array (← newObject) elements

/-- A new closure. -/
def newClosure (lambda : Lambda) (env : Env) : Eval Value :=
  return .closure (← newObject) lambda env

/-- Print a value. -/
def print (value : Value) : Eval Unit :=
  modify fun m => { m with printed := m.printed.push value }

/-- A new environment inside another, or by itself. -/
def newEnv (parent : Option Env) : Eval Env :=
  modifyGet fun m =>
    let (env, heap) := m.heap.allocate parent
    (env, { m with heap })

/-- Bind a name in an environment. -/
def define (env : Env) (name : String) (value : Value) : Eval Unit :=
  modify fun m => { m with heap := m.heap.set env name value }

/-- The value of a name: the nearest binding, or else the builtin of that name. -/
def lookup (env : Env) (id : Identifier) : Eval Value := do
  match (← get).heap.get? env id.name with
  | some value => return value
  | none =>
    match Builtin.ofName? id.name with
    | some b => return .builtin b
    | none => fail (.unknownIdentifier id.name) id.token.line

end Eval

end Bhasha
