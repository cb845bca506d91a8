import Bhasha.Session
import Mathlib.Tactic.Common

/-!
How evaluations end.

An evaluation ends with a result or an interrupt, and in both cases it leaves a machine behind.
`Eval.outcome` puts the two together, so that what holds however an evaluation ends is said once.
The equations of this file say how the outcome of a compound evaluation comes from those of its
parts; the proofs about the evaluator use them and do not look into the monad again.

`Eval.Elementary` are the evaluations made of a handful of instructions, none of which binds, calls
or returns. Operators and builtins are of this kind, so what they all keep to is proved for the
instructions.
-/

namespace Bhasha

namespace Eval

variable {α β : Type}

/-- How an evaluation ends, and the machine it leaves behind. -/
def outcome (x : Eval α) (m : Machine) : Except Interrupt α × Machine :=
  match x m with
  | .ok a m => (.ok a, m)
  | .error i m => (.error i, m)

@[simp] lemma outcome_pure (a : α) (m : Machine) : (pure a : Eval α).outcome m = (.ok a, m) := rfl

lemma outcome_bind_of_ok {x : Eval α} {m m' : Machine} {a : α} (h : x.outcome m = (.ok a, m'))
    (f : α → Eval β) : (x >>= f).outcome m = (f a).outcome m' := by
  unfold outcome at h
  unfold outcome
  change (match EStateM.bind x f m with | .ok b m => _ | .error i m => _) = _
  unfold EStateM.bind
  rcases hx : x m with ⟨b, m₁⟩ | ⟨i, m₁⟩
  · rw [hx] at h
    obtain ⟨rfl, rfl⟩ : b = a ∧ m₁ = m' := by simpa using h
    rfl
  · rw [hx] at h
    exact absurd h (by simp)

lemma outcome_bind_of_error {x : Eval α} {m m' : Machine} {i : Interrupt}
    (h : x.outcome m = (.error i, m')) (f : α → Eval β) :
    (x >>= f).outcome m = (.error i, m') := by
  unfold outcome at h
  unfold outcome
  change (match EStateM.bind x f m with | .ok b m => _ | .error i m => _) = _
  unfold EStateM.bind
  rcases hx : x m with ⟨b, m₁⟩ | ⟨j, m₁⟩
  · rw [hx] at h
    exact absurd h (by simp)
  · rw [hx] at h
    obtain ⟨rfl, rfl⟩ : j = i ∧ m₁ = m' := by simpa using h
    rfl

@[simp] lemma outcome_attempt (x : Eval α) (m : Machine) :
    x.attempt.outcome m = (.ok (x.outcome m).1, (x.outcome m).2) := by
  unfold outcome attempt
  rcases hx : x m with ⟨a, m₁⟩ | ⟨i, m₁⟩ <;> simp

@[simp] lemma outcome_print (v : Value) (m : Machine) :
    (print v).outcome m = (.ok (), { m with printed := m.printed.push v }) := rfl

lemma outcome_printAll (values : List Value) (m : Machine) :
    (values.forM print).outcome m =
      (.ok (), { m with printed := m.printed ++ values.toArray }) := by
  induction values generalizing m with
  | nil =>
    rw [Array.append_empty]
    rfl
  | cons v values ih =>
    have hprinted : m.printed ++ (v :: values).toArray = m.printed.push v ++ values.toArray :=
      Array.toList_inj.1 (by simp)
    rw [hprinted]
    exact ih { m with printed := m.printed.push v }

@[simp] lemma outcome_define (env : Env) (name : String) (v : Value) (m : Machine) :
    (define env name v).outcome m = (.ok (), { m with heap := m.heap.set env name v }) := rfl

@[simp] lemma outcome_newArray (elements : List Value) (m : Machine) :
    (newArray elements).outcome m =
      (.ok (.array m.nextObject elements), { m with nextObject := m.nextObject + 1 }) := rfl

@[simp] lemma outcome_newClosure (lambda : Lambda) (env : Env) (m : Machine) :
    (newClosure lambda env).outcome m =
      (.ok (.closure m.nextObject lambda env), { m with nextObject := m.nextObject + 1 }) := rfl

@[simp] lemma outcome_check (line : Nat) (r : Except Cause α) (m : Machine) :
    (check line r).outcome m = (r.mapError fun cause => .failed ⟨cause, line⟩, m) := by
  cases r <;> rfl

/-- How a name is resolved: by the nearest binding, else as a builtin, else not at all. -/
lemma outcome_lookup (env : Env) (id : Identifier) (m : Machine) :
    (lookup env id).outcome m =
      ((match m.heap.get? env id.name with
        | some v => .ok v
        | none =>
          match Builtin.ofName? id.name with
          | some b => .ok (.builtin b)
          | none => .error (.failed ⟨.unknownIdentifier id.name, id.token.line⟩)), m) := by
  have hget : (get : Eval Machine).outcome m = (.ok m, m) := rfl
  unfold lookup
  rw [outcome_bind_of_ok hget]
  rcases m.heap.get? env id.name with _ | v
  · rcases Builtin.ofName? id.name with _ | b <;> rfl
  · rfl

/-! ## Elementary evaluations -/

/-- The evaluations that operators and builtins are made of. They make objects, print, look names
up and fail; they bind nothing, call nothing and return nothing. -/
inductive Elementary : {α : Type} → Eval α → Prop
  | pure {α : Type} (a : α) : Elementary (pure a)
  | fail {α : Type} (cause : Cause) (line : Nat) : Elementary (fail cause line : Eval α)
  | newObject : Elementary newObject
  | print (v : Value) : Elementary (print v)
  | lookup (env : Env) (id : Identifier) : Elementary (lookup env id)
  | bind {α β : Type} {x : Eval α} {f : α → Eval β} :
      Elementary x → (∀ a, Elementary (f a)) → Elementary (x >>= f)

namespace Elementary

lemma check (line : Nat) (r : Except Cause α) : Elementary (check line r) := by
  cases r with
  | error cause => exact .fail cause line
  | ok a => exact .pure a

lemma newString (text : String) : Elementary (newString text) :=
  .bind .newObject fun _ => .pure _

lemma newArray (elements : List Value) : Elementary (newArray elements) :=
  .bind .newObject fun _ => .pure _

lemma newClosure (lambda : Lambda) (env : Env) : Elementary (newClosure lambda env) :=
  .bind .newObject fun _ => .pure _

lemma binary (op : BinaryOp) (left right : Value) (line : Nat) :
    Elementary (binary op left right line) := by
  rw [Eval.binary.eq_def]
  split
  · exact .check line _
  · exact .bind (.check line _) fun text => .newString text
  · split
    · exact .check line _
    · exact .fail _ line

lemma printAll (values : List Value) : Elementary (values.forM Eval.print) := by
  induction values with
  | nil => exact .pure ()
  | cons v values ih => exact .bind (.print v) fun _ => ih

lemma builtinBody (b : Builtin) (args : List Value) (line : Nat) :
    Elementary (b.body args line) := by
  cases b with
  | len => exact .check line _
  | first | head | last => exact .bind (.check line _) fun _ => .pure _
  | rest | tail =>
    refine .bind (.check line _) fun elements => ?_
    cases elements with
    | nil => exact .pure _
    | cons v others => exact .newArray others
  | push | append => exact .bind (.check line _) fun elements => .newArray elements
  | print | puts => exact .bind (.printAll args) fun _ => .pure _

lemma builtinCall (b : Builtin) (args : List Value) (line : Nat) :
    Elementary (b.call args line) := by
  rw [Builtin.call]
  split
  · exact .builtinBody b args line
  · exact .fail _ line

end Elementary

/-! ## Calls -/

/-- The environment of a call before its parameters are bound. -/
def entered (env : Env) (m : Machine) : Env × Machine :=
  ((m.heap.allocate (some env)).1,
    { m with
      heap := (m.heap.allocate (some env)).2
      callFrames := m.callFrames.push (m.heap.allocate (some env)).1 })

/-- The parameters of a call bound to its arguments in order. -/
def bound (scope : Env) : List (Identifier × Value) → Machine → Machine
  | [], m => m
  | (param, arg) :: rest, m =>
    bound scope rest { m with heap := m.heap.set scope param.name arg }

lemma outcome_bind_params (scope : Env) (pairs : List (Identifier × Value)) (m : Machine) :
    (pairs.forM fun (param, arg) => define scope param.name arg).outcome m =
      (.ok (), bound scope pairs m) := by
  induction pairs generalizing m with
  | nil => rfl
  | cons pair rest ih =>
    obtain ⟨param, arg⟩ := pair
    change (define scope param.name arg >>= fun _ => rest.forM _).outcome m = _
    rw [outcome_bind_of_ok (outcome_define scope param.name arg m), ih]
    rfl

lemma outcome_enter (params : List Identifier) (args : List Value) (env : Env) (m : Machine) :
    (enter params args env).outcome m =
      (.ok (entered env m).1, bound (entered env m).1 (params.zip args) (entered env m).2) := by
  unfold enter
  have hnew : (newEnv (some env)).outcome m =
      (.ok (entered env m).1, { m with heap := (entered env m).2.heap }) := rfl
  have hpush : (modify fun m' : Machine =>
      { m' with callFrames := m'.callFrames.push (entered env m).1 } : Eval Unit).outcome
        { m with heap := (entered env m).2.heap } = (.ok (), (entered env m).2) := rfl
  rw [outcome_bind_of_ok hnew, outcome_bind_of_ok hpush,
    outcome_bind_of_ok (outcome_bind_params _ _ _), outcome_pure]

/-- The machine after the frames of a call were given back. -/
def released (policy : ReleasePolicy) (mark : Nat) (result : Value) (m : Machine) : Machine :=
  match policy with
  | .deferred => m
  | .eager =>
    let freed := m.heap.release (m.callFrames.toList.drop mark) result
    { m with
      heap := freed.2
      callFrames := if mark = 0 then #[] else (m.callFrames.toList.take mark ++ freed.1).toArray }

lemma outcome_releaseCallFrames (policy : ReleasePolicy) (mark : Nat) (result : Value)
    (m : Machine) :
    (releaseCallFrames policy mark result).outcome m = (.ok (), released policy mark result m) := by
  cases policy with
  | deferred => rfl
  | eager =>
    have hframes : (m.callFrames.extract mark).toList = m.callFrames.toList.drop mark := by
      rw [Array.toList_extract, List.extract_eq_take_drop]
      exact List.take_of_length_le (by simp)
    have houter : (m.callFrames.shrink mark).toList = m.callFrames.toList.take mark := by
      simp [List.extract_eq_take_drop]
    change (Except.ok (), _) = (Except.ok (), _)
    simp only [released, hframes, ← houter]
    congr 2
    by_cases hmark : mark = 0
    · rw [if_pos hmark, if_pos hmark, hmark]
      simp
    · rw [if_neg hmark, if_neg hmark]
      exact Array.toList_inj.1 (by simp)

section

variable (policy : ReleasePolicy) (eval : Expr → Env → Eval Value)

/-- A call with the right number of arguments: the body runs in the new environment, and then the
frames of the call are given back. -/
lemma outcome_applyClosure {lambda : Lambda} {args : List Value}
    (hlen : lambda.params.length = args.length) (env : Env) (line : Nat) (m : Machine)
    {scope : Env} {m₁ m₂ : Machine} {r : Except Interrupt (Option Value)}
    (henter : (enter lambda.params args env).outcome m = (.ok scope, m₁))
    (hbody : (block eval lambda.body scope).outcome m₁ = (r, m₂)) :
    (applyClosure policy eval lambda env args line).outcome m =
      (callResult r,
        released policy m.callFrames.size ((callResult r).toOption.getD .null) m₂) := by
  unfold applyClosure
  rw [if_pos hlen]
  have hmark : callFrameCount.outcome m = (.ok m.callFrames.size, m) := rfl
  have hattempt : (attempt (block eval lambda.body scope)).outcome m₁ = (.ok r, m₂) := by
    rw [outcome_attempt, hbody]
  rw [outcome_bind_of_ok hmark, outcome_bind_of_ok henter, outcome_bind_of_ok hattempt,
    outcome_bind_of_ok (outcome_releaseCallFrames _ _ _ _)]
  rcases callResult r with i | v <;> rfl

end

/-! ## Returns -/

/-- How an evaluation that ended in a given way has ended seen from outside: a return is the value
it returns. -/
def finished : Except Interrupt (Option Value) → Except Interrupt (Option Value)
  | .error (.returned v) => .ok (some v)
  | .error (.failed fault) => .error (.failed fault)
  | .error .exhausted => .error .exhausted
  | .ok v => .ok v

lemma outcome_finish (x : Eval (Option Value)) (m : Machine) :
    (finish x).outcome m = (finished (x.outcome m).1, (x.outcome m).2) := by
  rw [finish, outcome_bind_of_ok (outcome_attempt x m)]
  rcases (x.outcome m).1 with (v | fault | _) | v <;> rfl

/-- The statements of a program do what they do in a block, but a return ends them with its
value. -/
lemma outcome_programStatements (eval : Expr → Env → Eval Value) (env : Env)
    (result : Option Value) (ss : List Stmt) (m : Machine) :
    (programStatements eval env result ss).outcome m =
      (finished ((statements eval env result ss).outcome m).1,
        ((statements eval env result ss).outcome m).2) := by
  induction ss generalizing result m with
  | nil => rfl
  | cons s rest ih =>
    rw [programStatements, statements, outcome_bind_of_ok (outcome_attempt _ m)]
    rcases hout : (statement eval s env).outcome m with ⟨i | r, m₁⟩
    · rw [outcome_bind_of_error hout]
      rcases i with v | fault | _ <;> rfl
    · rw [outcome_bind_of_ok hout]
      exact ih r m₁

end Eval

/-! ## Programs seen from outside -/

/-- The answer of a program that ends in a given way: a return that no call has ended is the value
it returns. -/
def Answer.ofOutcome : Except Interrupt (Option Value) → Answer
  | .ok v => .value v
  | .error (.returned v) => .value (some v)
  | .error (.failed f) => .failed f
  | .error .exhausted => .exhausted

namespace Machine

/-- Evaluate a program in an environment, with frames given back as a policy says. -/
def evaluateUnder (policy : ReleasePolicy) (m : Machine) (p : Program) (env : Env)
    (depth : Nat) : Answer × Machine :=
  (.ofOutcome ((Eval.program policy depth p env).outcome m).1,
    ((Eval.program policy depth p env).outcome m).2)

/-- The machine evaluates programs under the eager policy. -/
lemma evaluate_eq (m : Machine) (p : Program) (env : Env) (depth : Nat) :
    m.evaluate p env depth = m.evaluateUnder .eager p env depth := by
  unfold evaluate evaluateUnder Eval.outcome
  rcases Eval.program .eager depth p env m with ⟨value, m'⟩ | ⟨_ | _ | _, m'⟩ <;> rfl

end Machine

end Bhasha
