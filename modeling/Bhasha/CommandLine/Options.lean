/-!
The arguments of the command line.

An argument that starts with a hyphen and has more than it is an option: a long one after two
hyphens, or any number of one-letter ones after a single hyphen. One option, the log level, takes
a value, which stands behind it or is the next argument. An argument of two hyphens ends the
options. Of the other arguments there is at most one, and it is the script.
-/

namespace Bhasha.CommandLine

/-- What the arguments ask for. -/
structure Options where
  /-- Whether the script is the path of a file that holds it. -/
  file : Bool := false
  /-- Whether the value of the script is printed. -/
  pipe : Bool := false
  /-- What is to be logged. -/
  logLevel : Option String := none
  /-- The script. -/
  script : Option String := none
deriving DecidableEq, Repr

namespace Options

/-- The options with one more argument that is no option; at most one is allowed. -/
def addScript (o : Options) (s : String) : Option Options :=
  match o.script with
  | none => some { o with script := some s }
  | some _ => none

/-- The options with a flag for a file, which may be given once. -/
def addFile (o : Options) : Option Options :=
  if o.file then none else some { o with file := true }

/-- The options with a flag for the value, which may be given once. -/
def addPipe (o : Options) : Option Options :=
  if o.pipe then none else some { o with pipe := true }

/-- The options with a log level, which may be given once. -/
def addLogLevel (o : Options) (level : String) : Option Options :=
  match o.logLevel with
  | none => some { o with logLevel := some level }
  | some _ => none

/-- The options with the one-letter options of one argument. If the last of them still needs its
value, that is said too. -/
def addLetters : Options → List Char → Option (Options × Bool)
  | o, [] => some (o, false)
  | o, 'f' :: rest => do addLetters (← o.addFile) rest
  | o, 'p' :: rest => do addLetters (← o.addPipe) rest
  | o, ['l'] => some (o, true)
  | o, 'l' :: '=' :: rest => do return (← o.addLogLevel (String.ofList rest), false)
  | o, 'l' :: rest => do return (← o.addLogLevel (String.ofList rest), false)
  | _, _ => none

/-- The options with a long option, given without its hyphens. If it still needs its value, that
is said too. -/
def addWord (o : Options) (word : List Char) : Option (Options × Bool) :=
  let name := String.ofList (word.takeWhile (· != '='))
  match name, word.dropWhile (· != '=') with
  | "file", [] => do return (← o.addFile, false)
  | "pipe-mode", [] => do return (← o.addPipe, false)
  | "log-level", [] => some (o, true)
  | "log-level", _ :: value => do return (← o.addLogLevel (String.ofList value), false)
  | _, _ => none

/-- The options with further arguments, or nothing if they cannot be understood. -/
def addArguments : Options → List String → Option Options
  | o, [] => some o
  | o, arg :: args =>
    let added : Option (Options × Bool) :=
      match arg.toList with
      | '-' :: '-' :: word => o.addWord word
      | '-' :: letter :: letters => o.addLetters (letter :: letters)
      | _ => do return (← o.addScript arg, false)
    if arg = "--" then
      -- what follows is no option
      args.foldlM addScript o
    else
      match added, args with
      | some (o, false), args => addArguments o args
      | some (o, true), value :: args => do addArguments (← o.addLogLevel value) args
      | some (_, true), [] => none
      | none, _ => none

/-- The options that arguments ask for, or nothing if they cannot be understood. -/
def ofArguments (args : List String) : Option Options :=
  addArguments {} args

end Options

end Bhasha.CommandLine
