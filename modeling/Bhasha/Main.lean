import Bhasha.CommandLine.Basic

/-!
The command line. With a script it is run; without one, lines are read from the input and each is
answered before the next is read.
-/

namespace Bhasha.CommandLine

/-- What stands before the input on a terminal. -/
def prompt : String := "-> "

/-- Write what a run leaves behind. -/
def write (o : Output) : IO UInt32 := do
  IO.print o.stdout
  IO.eprint o.stderr
  return o.exit.toUInt32

/-- The bytes of a file, if it can be read. -/
def readFile (path : String) : IO (Option ByteArray) := do
  try
    return some (← IO.FS.readBinFile path)
  catch _ =>
    return none

/-- Read a line with its line feed, byte by byte; at the end of the input there is none. -/
partial def readLine (input : IO.FS.Stream) (line : Array UInt8) : IO (List UInt8) := do
  match (← input.read 1).toList with
  | [] => return line.toList
  | byte :: _ =>
    let line := line.push byte
    if byte == 10 then return line.toList else readLine input line

/-- Read and answer lines until the input ends. -/
partial def answerLines (input output : IO.FS.Stream) (m : Machine) : IO UInt32 := do
  if ← input.isTty then
    output.putStr prompt
    output.flush
  match ← readLine input #[] with
  | [] => return 0
  | line =>
    match decodeLine line with
    | some text =>
      let (shown, m) := answerLine m text
      output.putStr shown
      output.flush
      answerLines input output m
    | none => write ⟨1, "", notText⟩

end Bhasha.CommandLine

open Bhasha CommandLine in
/-- Run the command line; yields its exit code. -/
def main (args : List String) : IO UInt32 := do
  match Options.ofArguments args with
  | none =>
    IO.eprintln "usage: bhasha [-f] [-p] [-l LEVEL] [SCRIPT]"
    return 2
  | some o =>
    match o.script with
    | some script =>
      let bytes ← if o.file then readFile script else pure none
      write (perform o (fun _ => bytes) ByteArray.empty)
    | none => answerLines (← IO.getStdin) (← IO.getStdout) Machine.initial
