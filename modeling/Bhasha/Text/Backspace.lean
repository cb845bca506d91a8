import Bhasha.Text.Cluster

/-!
Backspaces in a typed text.

A backspace takes back the character before it, as a reader sees characters: a whole cluster. With
nothing left to take back it does nothing. Neither it nor what it takes back stays in the text.

What is remembered of a character is how many bytes it takes, and that number is kept in one
byte. A cluster of 256 bytes and more is therefore taken back in part only.
-/

namespace Bhasha.Text

/-- The backspace character. -/
def backspace : Char := '\x08'

/-- A text in the course of typing. -/
structure Typed where
  /-- The characters that stand, the last one first. -/
  kept : List Char := []
  /-- The sizes of the clusters typed and not taken back, the last one first. -/
  sizes : List Nat := []
deriving DecidableEq, Repr

/-- The size of a cluster: its bytes, counted in one byte. -/
def clusterSize (g : List Char) : Nat :=
  g.foldl (fun bytes c => bytes + c.utf8Size) 0 % 256

/-- Characters without the first of them that take up a given number of bytes. -/
def dropBytes : Nat → List Char → List Char
  | 0, cs => cs
  | _, [] => []
  | n, c :: cs => dropBytes (n - c.utf8Size) cs

namespace Typed

/-- The text after one more cluster is typed. -/
def type (t : Typed) (g : List Char) : Typed :=
  if g = [backspace] then
    match t.sizes with
    | [] => t
    | size :: sizes => ⟨dropBytes size t.kept, sizes⟩
  else
    ⟨g.reverse ++ t.kept, clusterSize g :: t.sizes⟩

end Typed

/-- The text that stands when its backspaces have taken effect. -/
def applyBackspaces (cs : List Char) : List Char :=
  ((clusters cs).foldl Typed.type {}).kept.reverse

end Bhasha.Text
