import Bhasha.Value.Basic

/-!
When two values are the same.

Programs compare by identity: an object is identical to itself alone, whatever its content.
Beside it stands equality of content, which looks into strings and arrays.
-/

namespace Bhasha.Value

/-- Whether two values are identical: objects if they are one object, all others if they are
equal. Values of different types never are. -/
def identical : Value → Value → Bool
  | int a, int b => a == b
  | bool a, bool b => a == b
  | str i _, str j _ => i == j
  | array i _, array j _ => i == j
  | null, null => true
  | closure i _ _, closure j _ _ => i == j
  | builtin a, builtin b => a == b
  | _, _ => false

mutual

/-- Whether two values have the same content: strings by their text, arrays element by element,
all others if they are identical. -/
def equal : Value → Value → Bool
  | str _ s, str _ t => s == t
  | array _ xs, array _ ys => equalAll xs ys
  | a, b => identical a b

/-- Whether two rows of values have the same content. -/
def equalAll : List Value → List Value → Bool
  | [], [] => true
  | x :: xs, y :: ys => equal x y && equalAll xs ys
  | _, _ => false

end

mutual

/-- A value has the same content as itself. -/
@[simp] theorem equal_self (v : Value) : equal v v = true := by
  cases v with
  | array _ xs => simpa only [equal] using equalAll_self xs
  | _ => simp [equal, identical]

/-- A row of values has the same content as itself. -/
@[simp] theorem equalAll_self (xs : List Value) : equalAll xs xs = true := by
  cases xs with
  | nil => simp only [equalAll]
  | cons x xs => simp only [equalAll, equal_self x, equalAll_self xs, Bool.and_self]

end

end Bhasha.Value
