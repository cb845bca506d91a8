import Bhasha.Session
import Bhasha.Text.Backspace
import Bhasha.Text.WhiteSpace

/-!
Answering line by line.

Without a script, lines are read and answered one after the other on one machine. The answer to
a line is what it prints and then its value, its fault, or the faults of its text. Lines of
nothing but white space are passed over. After each line that could be read, the garbage is
collected.

Input is a sequence of bytes. A line ends with a line feed, which does not belong to it, nor does
a carriage return before it; the last line may lack its end. A line is taken as it was typed: a
backspace in it takes back the character before it.
-/

namespace Bhasha.CommandLine

/-- The first line of some bytes with its line feed, if it has one, and the bytes behind it. -/
def cutLine (bytes : List UInt8) : List UInt8 × List UInt8 :=
  let (line, rest) := bytes.span (· != 10)
  (line ++ rest.take 1, rest.drop 1)

/-- The lines of some bytes, each with its line feed, within a bound on their number. -/
def linesWithin : Nat → List UInt8 → List (List UInt8)
  | 0, _ => []
  | _, [] => []
  | n + 1, bytes =>
    let (line, rest) := cutLine bytes
    line :: linesWithin n rest

/-- The lines of some bytes, each with its line feed. -/
def lines (bytes : List UInt8) : List (List UInt8) :=
  linesWithin bytes.length bytes

/-- A line without its end. -/
def withoutEnd (line : List Char) : List Char :=
  match line.reverse with
  | '\n' :: '\r' :: rest => rest.reverse
  | '\n' :: rest => rest.reverse
  | _ => line

/-- The text of a line given with its end, if its bytes are the encoding of one: without the end,
and after its backspaces. -/
def decodeLine (line : List UInt8) : Option String :=
  (String.fromUTF8? ⟨line.toArray⟩).map fun s =>
    String.ofList (Text.applyBackspaces (withoutEnd s.toList))

/-- What is shown for an answer. -/
def shown : Answer → String
  | .value (some v) => v.render ++ "\n"
  | .value none => ""
  | .unreadable faults => Text.concat (faults.map fun f => "\t ERR > " ++ f.message ++ "\n")
  | .failed fault => fault.message ++ "\n"
  | .exhausted => ""

/-- Answer a line: what is shown, and the machine for the next one. -/
def answerLine (m : Machine) (line : String) : String × Machine :=
  if Text.isVoid line then
    ("", m)
  else
    let (answer, m) := m.answer line Env.global Machine.ampleDepth
    let (printed, m) := m.takePrinted
    match answer with
    | .unreadable _ => (printed ++ shown answer, m)
    | _ => (printed ++ shown answer, (m.collectGarbage []).2)

/-- What is said of a line that is not the encoding of a text. -/
def notText : String := "stream did not contain valid UTF-8\n"

end Bhasha.CommandLine
