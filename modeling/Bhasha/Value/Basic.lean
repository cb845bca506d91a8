import Bhasha.Builtin
import Bhasha.Tree.Basic

/-!
Values.

Integers, truth values, null and builtins are what they are. Strings, arrays and closures are
objects: each is made at some moment of a run and keeps an identity from then on, so that two of
them can have the same content and still be two. An identity is a number, and a run gives out
no number twice.

A closure holds its environment by a handle. A handle names a slot of the heap and the
generation of that slot; once the frame it was made for is gone, the slot has a later
generation, and the handle is stale.
-/

namespace Bhasha

/-- The handle of an environment. -/
structure Env where
  /-- The slot of the frame. -/
  index : Nat
  /-- The generation of the slot when the frame was put there. -/
  generation : UInt32
deriving DecidableEq, Repr, Inhabited

/-- The identity of an object. -/
abbrev ObjectId := Nat

/-- A value. -/
inductive Value where
  /-- An integer. -/
  | int (n : Int64)
  /-- A truth value. -/
  | bool (b : Bool)
  /-- A string, which is an object. -/
  | str (id : ObjectId) (text : String)
  /-- An array, which is an object. -/
  | array (id : ObjectId) (elements : List Value)
  /-- The absence of a value. -/
  | null
  /-- A function literal with the environment it was evaluated in, which is an object. -/
  | closure (id : ObjectId) (lambda : Lambda) (env : Env)
  /-- A builtin function. -/
  | builtin (b : Builtin)
deriving Inhabited

/-- The types of values. -/
inductive Ty where
  | int
  | bool
  | str
  | array
  | null
  | function
  | builtin
deriving DecidableEq, Repr

/-- The name of a type in messages. -/
def Ty.name : Ty → String
  | int => "INTEGER"
  | bool => "BOOLEAN"
  | str => "STRING"
  | array => "ARRAY"
  | null => "NULL"
  | function => "FUNCTION"
  | builtin => "BUILTIN"

namespace Value

/-- The type of a value. -/
def type : Value → Ty
  | int _ => .int
  | bool _ => .bool
  | str .. => .str
  | array .. => .array
  | null => .null
  | closure .. => .function
  | builtin _ => .builtin

/-- Whether a value counts as true: all do but null and false. -/
def truthy : Value → Bool
  | null => false
  | bool b => b
  | _ => true

mutual

/-- The environments that a value holds: a closure holds its own, and an array those of its
elements. -/
def captured : Value → List Env
  | closure _ _ env => [env]
  | array _ elements => capturedAll elements
  | _ => []

/-- The environments that values hold. -/
def capturedAll : List Value → List Env
  | [] => []
  | v :: rest => v.captured ++ capturedAll rest

end

end Value

end Bhasha
