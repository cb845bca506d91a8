import Bhasha.CommandLine.Lines
import Bhasha.CommandLine.Options

/-!
The command line as a function: what is written and how it ends, from the arguments, the files
and the input.
-/

namespace Bhasha.CommandLine

/-- What a run of the command line leaves behind. -/
structure Output where
  /-- The exit code: zero for success, one for failure. -/
  exit : Nat
  /-- What was written as output. -/
  stdout : String
  /-- What was written as diagnostics. -/
  stderr : String
deriving DecidableEq, Repr

/-- Run a script; its value is printed if `pipe` says so. -/
def runScript (text : String) (pipe : Bool) : Output :=
  let (answer, printed) := run text Machine.ampleDepth
  match answer with
  | .value (some v) => ⟨0, if pipe then printed ++ v.render ++ "\n" else printed, ""⟩
  | .value none => ⟨0, printed, ""⟩
  | .unreadable faults => ⟨1, printed, SyntaxFault.messages faults ++ "\n"⟩
  | .failed fault => ⟨1, printed, fault.message ++ "\n"⟩
  | .exhausted => ⟨1, printed, ""⟩

/-- What is left when a file cannot be read. -/
def unreadableFile (path : String) : Output :=
  ⟨1, "", "Failed to read the input file '" ++ path ++ "'. Perhaps this file does not exist?\n"⟩

/-- Run the script in the bytes of a file, if there are any. -/
def runFile (path : String) (bytes : Option ByteArray) (pipe : Bool) : Output :=
  match bytes.bind String.fromUTF8? with
  | some text => runScript text pipe
  | none => unreadableFile path

/-- Answer lines one after the other; a line that is no text ends them. -/
def runLines (m : Machine) : List (List UInt8) → Output
  | [] => ⟨0, "", ""⟩
  | line :: rest =>
    match decodeLine line with
    | some text =>
      let (shown, m) := answerLine m text
      let output := runLines m rest
      { output with stdout := shown ++ output.stdout }
    | none => ⟨1, "", notText⟩

/-- The whole command line, from its options on. -/
def perform (o : Options) (readFile : String → Option ByteArray) (input : ByteArray) : Output :=
  match o.script with
  | some script =>
    if o.file then runFile script (readFile script) o.pipe else runScript script o.pipe
  | none => runLines Machine.initial (lines input.toList)

end Bhasha.CommandLine
