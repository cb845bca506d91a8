/-!
Texts in a row.

Lists of arguments, parameters and elements are written with a comma and a space between two
neighbours, wherever they stand.
-/

namespace Bhasha.Text

/-- The texts with a comma and a space between neighbours. -/
def commaSeparated : List String → String
  | [] => ""
  | [s] => s
  | s :: t :: rest => s ++ ", " ++ commaSeparated (t :: rest)

/-- The texts one after the other. -/
def concat : List String → String
  | [] => ""
  | s :: rest => s ++ concat rest

end Bhasha.Text
