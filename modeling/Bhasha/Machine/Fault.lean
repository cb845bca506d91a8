import Bhasha.Value.Basic

/-!
Faults of a running program.

A fault ends the program. It has a cause and the line of the construct that could not be
carried out: an operator, a call, an index or a name.
-/

namespace Bhasha

/-- Why a construct could not be carried out. -/
inductive Cause where
  /-- A name that is neither bound nor a builtin. -/
  | unknownIdentifier (name : String)
  /-- Operands of different types. -/
  | typeMismatch (left : Ty) (op : BinaryOp) (right : Ty)
  /-- Operands of a type that the operator does not take. -/
  | unknownBinary (left : Ty) (op : BinaryOp) (right : Ty)
  /-- An operand of a type that the operator does not take. -/
  | unknownUnary (op : UnaryOp) (operand : Ty)
  /-- A quotient by zero. -/
  | divisionByZero
  /-- A result that does not fit. -/
  | overflow
  /-- A call of what is no function. -/
  | notAFunction (callee : Ty)
  /-- A call with a wrong number of arguments. -/
  | argumentCount (expected found : Nat)
  /-- An index into what has no elements, or by what is no integer. -/
  | indexNotSupported (base index : Ty)
  /-- An argument of a type that the builtin does not take. -/
  | unsupportedArgument (callee : Builtin) (argument : Ty)
deriving DecidableEq, Repr

/-- What a cause says. -/
def Cause.message : Cause → String
  | unknownIdentifier name => "identifier not found: " ++ name
  | typeMismatch left op right =>
    "type mismatch: " ++ left.name ++ " " ++ op.sign ++ " " ++ right.name
  | unknownBinary left op right =>
    "unknown operator: " ++ left.name ++ " " ++ op.sign ++ " " ++ right.name
  | unknownUnary op operand => "unknown operator: " ++ op.sign ++ operand.name
  | divisionByZero => "division by zero"
  | overflow => "integer overflow"
  | notAFunction callee => "not a function: " ++ callee.name
  | argumentCount expected found =>
    "wrong number of arguments: want=" ++ toString expected ++ ", got=" ++ toString found
  | indexNotSupported base index =>
    "index operator not supported: " ++ base.name ++ "[" ++ index.name ++ "]"
  | unsupportedArgument callee argument =>
    "argument to `" ++ callee.name ++ "` not supported, got " ++ argument.name

/-- A fault of a running program. -/
structure Fault where
  /-- What went wrong. -/
  cause : Cause
  /-- The line of the construct that went wrong. -/
  line : Nat
deriving DecidableEq, Repr

/-- The message of a fault. -/
def Fault.message (f : Fault) : String :=
  "Error on line " ++ toString f.line ++ ": " ++ f.cause.message

end Bhasha
