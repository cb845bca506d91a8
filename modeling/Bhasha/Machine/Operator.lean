import Bhasha.Machine.Basic
import Bhasha.Number
import Bhasha.Value.Equality

/-!
What operators do.

The types of the operands choose the operation. Integers are calculated with and ordered,
strings are joined, and values of one other type are compared by identity. Operands of
different types have no operation in common.
-/

namespace Bhasha

/-- The operation of an operator on integers. -/
def BinaryOp.onIntegers (op : BinaryOp) (a b : Int64) : Except Cause Value :=
  let fitting (n? : Option Int64) : Except Cause Value :=
    match n? with
    | some n => .ok (.int n)
    | none => .error .overflow
  match op with
  | .add => fitting (Number.add? a b)
  | .sub => fitting (Number.sub? a b)
  | .mul => fitting (Number.mul? a b)
  | .div => if b = 0 then .error .divisionByZero else fitting (Number.div? a b)
  | .lt => .ok (.bool (decide (a < b)))
  | .gt => .ok (.bool (decide (b < a)))
  | .eq => .ok (.bool (a == b))
  | .ne => .ok (.bool (a != b))

/-- The operation of an operator on strings: only joining is one. -/
def BinaryOp.onStrings (op : BinaryOp) (s t : String) : Except Cause String :=
  match op with
  | .add => .ok (s ++ t)
  | op => .error (.unknownBinary .str op .str)

/-- The operation of an operator on any two values: comparison by identity. -/
def BinaryOp.onIdentity (op : BinaryOp) (left right : Value) : Except Cause Value :=
  match op with
  | .eq => .ok (.bool (left.identical right))
  | .ne => .ok (.bool (!left.identical right))
  | op => .error (.unknownBinary left.type op right.type)

/-- The operation of an operator before its operand. -/
def UnaryOp.onValue : UnaryOp → Value → Except Cause Value
  | .not, operand => .ok (.bool (!operand.truthy))
  | .neg, .int n =>
    match Number.neg? n with
    | some n => .ok (.int n)
    | none => .error .overflow
  | .neg, operand => .error (.unknownUnary .neg operand.type)

/-- The element of an array at an index; null if there is none. -/
def Value.elementAt : Value → Value → Except Cause Value
  | .array _ elements, .int index =>
    match Number.position? index elements.length with
    | some i => .ok (elements.getD i .null)
    | none => .ok .null
  | base, index => .error (.indexNotSupported base.type index.type)

namespace Eval

/-- An operator between two values. -/
def binary (op : BinaryOp) (left right : Value) (line : Nat) : Eval Value :=
  match left, right with
  | .int a, .int b => check line (op.onIntegers a b)
  | .str _ s, .str _ t => do newString (← check line (op.onStrings s t))
  | left, right =>
    if left.type = right.type then
      check line (op.onIdentity left right)
    else
      fail (.typeMismatch left.type op right.type) line

/-- An operator before a value. -/
def unary (op : UnaryOp) (operand : Value) (line : Nat) : Eval Value :=
  check line (op.onValue operand)

/-- An element of a value. -/
def index (base index : Value) (line : Nat) : Eval Value :=
  check line (base.elementAt index)

end Eval

end Bhasha
