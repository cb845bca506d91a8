import Bhasha.Number
import Bhasha.Tree.Render
import Bhasha.Value.Basic

/-!
The text of a value, as it is printed. A string is printed without quotation marks, and a
closure as its function literal.
-/

namespace Bhasha.Value

mutual

/-- The text of a value. -/
def render : Value → String
  | int n => Number.render n
  | bool b => if b then "true" else "false"
  | str _ text => text
  | array _ elements => "[" ++ Text.commaSeparated (renderAll elements) ++ "]"
  | null => "null"
  | closure _ lambda _ => lambda.render
  | builtin b => "builtin function " ++ b.name

/-- The texts of values. -/
def renderAll : List Value → List String
  | [] => []
  | v :: rest => v.render :: renderAll rest

end

end Bhasha.Value
