/-!
The builtin functions by name.

A builtin is one entry of a fixed table. Two entries can do the same under two names, as `first`
and `head` do; they are still two builtins, and a message names the one that was called.
-/

namespace Bhasha

/-- The builtin functions. -/
inductive Builtin where
  /-- The number of characters of a string, or of elements of an array. -/
  | len
  /-- The first element of an array. -/
  | first
  /-- The same as `first`. -/
  | head
  /-- The last element of an array. -/
  | last
  /-- The elements of an array but the first. -/
  | rest
  /-- The same as `rest`. -/
  | tail
  /-- The elements of an array and one more. -/
  | push
  /-- The same as `push`. -/
  | append
  /-- Prints its arguments. -/
  | print
  /-- The same as `print`. -/
  | puts
deriving DecidableEq, Repr

/-- How many arguments a function takes. -/
inductive Arity where
  /-- A fixed number of them. -/
  | exact (count : Nat)
  /-- Any number of them. -/
  | variadic
deriving DecidableEq, Repr

/-- Nothing if a number of arguments can be taken, and how many are taken if it cannot. -/
def Arity.check : Arity → Nat → Except Nat Unit
  | .exact count, given => if given = count then .ok () else .error count
  | .variadic, _ => .ok ()

namespace Builtin

/-- The table of builtins. -/
def all : List Builtin :=
  [len, first, head, last, rest, tail, push, append, print, puts]

/-- The name of a builtin in programs. -/
def name : Builtin → String
  | len => "len"
  | first => "first"
  | head => "head"
  | last => "last"
  | rest => "rest"
  | tail => "tail"
  | push => "push"
  | append => "append"
  | print => "print"
  | puts => "puts"

/-- How many arguments a builtin takes. -/
def arity : Builtin → Arity
  | len | first | head | last | rest | tail => .exact 1
  | push | append => .exact 2
  | print | puts => .variadic

/-- The builtin of a name. -/
def ofName? (s : String) : Option Builtin :=
  all.find? fun b => b.name == s

/-- A description of a builtin for programmers: its name and how many arguments it takes. -/
def describe (b : Builtin) : String :=
  let arity := match b.arity with
    | .exact count => "Exact(" ++ toString count ++ ")"
    | .variadic => "Variadic"
  "Builtin \x7b name: \"" ++ b.name ++ "\", arity: " ++ arity ++ ", .. \x7d"

end Builtin

end Bhasha
