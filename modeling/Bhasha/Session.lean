import Bhasha.Machine.Evaluator
import Bhasha.Text.Joined
import Bhasha.Tree.Parser
import Bhasha.Value.Render

/-!
Sessions.

A session is a machine that is used again and again: what one text binds, the next one finds.
Between two texts the garbage can be collected, and what was printed can be taken away.
-/

namespace Bhasha

/-- How the evaluation of a text ended. -/
inductive Answer where
  /-- With the value of its last statement, if that has one. -/
  | value (v : Option Value)
  /-- The text has faults, and nothing was evaluated. -/
  | unreadable (faults : List SyntaxFault)
  /-- With a fault. -/
  | failed (fault : Fault)
  /-- The depth allowed was used up. -/
  | exhausted

namespace SyntaxFault

/-- The messages of faults, one on each line. -/
def messages : List SyntaxFault → String
  | [] => ""
  | [f] => f.message
  | f :: g :: rest => f.message ++ "\n" ++ messages (g :: rest)

end SyntaxFault

namespace Machine

/-- A depth of evaluation that no run on a computer reaches. -/
def ampleDepth : Nat := 0x1000000000000

/-- Evaluate a program in an environment. -/
def evaluate (m : Machine) (p : Program) (env : Env) (depth : Nat) : Answer × Machine :=
  match Eval.program .eager depth p env m with
  | .ok value m => (.value value, m)
  | .error (.returned value) m => (.value (some value), m)
  | .error (.failed fault) m => (.failed fault, m)
  | .error .exhausted m => (.exhausted, m)

/-- Read and evaluate a text in an environment. -/
def answer (m : Machine) (text : String) (env : Env) (depth : Nat) : Answer × Machine :=
  match Program.parse text with
  | .ok p => m.evaluate p env depth
  | .error faults => (.unreadable faults, m)

/-- Give back the frames that neither the outermost environment nor the given ones reach; yields
their number. -/
def collectGarbage (m : Machine) (roots : List Env) : Nat × Machine :=
  let (count, heap) := m.heap.collect (Env.global :: roots)
  (count, { m with heap })

/-- Take away what was printed: its text, a line for each value. -/
def takePrinted (m : Machine) : String × Machine :=
  (Text.concat (m.printed.toList.map (·.render ++ "\n")), { m with printed := #[] })

end Machine

/-- Evaluate a text on a machine of its own; yields the answer and what was printed. -/
def run (text : String) (depth : Nat) : Answer × String :=
  let (answer, m) := Machine.initial.answer text Env.global depth
  (answer, m.takePrinted.1)

end Bhasha
