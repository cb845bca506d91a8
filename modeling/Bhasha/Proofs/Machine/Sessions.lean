import Bhasha.Proofs.Machine.Safety

/-!
Sessions.

A session starts with a new machine and uses it again and again: it evaluates programs in the
outermost environment, collects garbage between them, and takes away what was printed. Between
two uses the machine is at rest: the outermost environment is there, no call is in progress, and
no handle dangles. What is safe in the middle of an evaluation is in `Eval.Safe`; here it is
put together for whole sessions.
-/

namespace Bhasha

/-! ## Machines at rest -/

/-- A machine between two uses. -/
structure Machine.AtRest (m : Machine) : Prop where
  sound : m.heap.Sound
  contains_global : m.heap.contains Env.global
  callFrames : m.callFrames = #[]

/-- The environments that an answer holds. -/
def Answer.Holds : Answer → Env → Prop
  | .value v => Eval.HeldIn v
  | .unreadable _ | .failed _ | .exhausted => fun _ => False

namespace Machine

lemma atRest_initial : Machine.initial.AtRest where
  sound := by
    have hempty : Heap.empty.Sound := by
      refine ⟨Heap.wellFormed_empty, ?_, fun e he => ?_⟩
      · rintro d e ⟨f, hf, -⟩
        cases hf
      · obtain ⟨f, hf⟩ := Heap.contains_iff.1 he
        cases hf
    exact hempty.allocate fun p hp => nomatch hp
  contains_global := rfl
  callFrames := rfl

variable {m : Machine}

/-- A program leaves the machine at rest, and its answer holds no dangling handle. -/
lemma AtRest.evaluate (hm : m.AtRest) (p : Program) (depth : Nat) :
    (m.evaluate p Env.global depth).2.AtRest ∧
      ∀ e, (m.evaluate p Env.global depth).1.Holds e →
        (m.evaluate p Env.global depth).2.heap.contains e := by
  have hsafe : Eval.Safe .eager Env.global Eval.HeldIn (Eval.program .eager depth p Env.global) m :=
    .program hm.sound hm.contains_global depth p
  obtain ⟨hev, hheld⟩ := hsafe
  rw [evaluate_eq]
  refine ⟨⟨hev.sound, hev.contains hm.contains_global, ?_⟩, fun e he => hheld e ?_⟩
  · exact Array.toList_inj.1 (hev.settled rfl (by rw [hm.callFrames]))
  · change (Answer.ofOutcome ((Eval.program .eager depth p Env.global).outcome m).1).Holds e at he
    rcases hr : ((Eval.program .eager depth p Env.global).outcome m).1 with (v | _ | _) | value
    · rw [hr] at he
      obtain ⟨w, hw, hold⟩ := he
      obtain rfl := Option.some.inj hw
      exact hold
    · rw [hr] at he
      exact he
    · rw [hr] at he
      exact he
    · rw [hr] at he
      exact he

lemma AtRest.collectGarbage (hm : m.AtRest) (roots : List Env) :
    (m.collectGarbage roots).2.AtRest where
  sound := hm.sound.collect _
  contains_global := Heap.contains_collect_of_mem hm.contains_global (by simp)
  callFrames := hm.callFrames

lemma AtRest.takePrinted (hm : m.AtRest) : m.takePrinted.2.AtRest :=
  ⟨hm.sound, hm.contains_global, hm.callFrames⟩

end Machine

/-! ## Sessions -/

/-- One use of a machine in a session, and the answer it gives if it evaluates a program. -/
inductive Session.Step (m : Machine) : Option Answer → Machine → Prop
  /-- A program is evaluated in the outermost environment, however it ends. -/
  | evaluate (p : Program) (depth : Nat) :
      Step m (some (m.evaluate p Env.global depth).1) (m.evaluate p Env.global depth).2
  /-- Garbage is collected. The frames of the given handles are kept, and all have one. -/
  | collectGarbage (roots : List Env) (live : ∀ e ∈ roots, m.heap.contains e) :
      Step m none (m.collectGarbage roots).2
  /-- What was printed is taken away. -/
  | takePrinted : Step m none m.takePrinted.2

/-- The machines of sessions. -/
inductive Session : Machine → Prop
  | start : Session Machine.initial
  | step {m m' : Machine} {answer : Option Answer} :
      Session m → Session.Step m answer m' → Session m'

lemma Session.Step.atRest {m m' : Machine} {answer : Option Answer}
    (hstep : Session.Step m answer m') (hm : m.AtRest) : m'.AtRest := by
  cases hstep with
  | evaluate p depth => exact (hm.evaluate p depth).1
  | collectGarbage roots _ => exact hm.collectGarbage roots
  | takePrinted => exact hm.takePrinted

lemma Session.atRest {m : Machine} (hm : Session m) : m.AtRest := by
  induction hm with
  | start => exact Machine.atRest_initial
  | step _ hstep ih => exact hstep.atRest ih

/-- In a session no handle ever dangles. After each step the outermost environment is there, no
call is in progress, every frame has the frames it refers to, and so has, at any remove, the
value that the step answers. -/
theorem Session.no_dangling_handle {m m' : Machine} {answer : Option Answer} (hm : Session m)
    (hstep : Session.Step m answer m') :
    m'.heap.contains Env.global ∧ m'.callFrames = #[] ∧
      (∀ e f, m'.heap.frame? e = some f →
        (∀ p, f.parent = some p → m'.heap.contains p) ∧
          ∀ name v, (name, v) ∈ f.bindings → ∀ d, v.Holds d → m'.heap.contains d) ∧
      ∀ v, answer = some (.value (some v)) → ∀ d e, v.Holds d →
        Relation.ReflTransGen m'.heap.Refers d e → m'.heap.contains e := by
  have hrest := hstep.atRest hm.atRest
  refine ⟨hrest.contains_global, hrest.callFrames, fun e f hf => ⟨fun p hp => ?_, ?_⟩, ?_⟩
  · exact hrest.sound.closed e p ⟨f, hf, Or.inl hp⟩
  · intro name v hv d hd
    exact hrest.sound.closed e d ⟨f, hf, Or.inr ⟨(name, v), hv, hd⟩⟩
  · intro v hv d e hd hde
    cases hstep with
    | evaluate p depth =>
      have hheld := (hm.atRest.evaluate p depth).2 d
      rw [Option.some.inj hv] at hheld
      exact hrest.sound.closed.contains_of_reaches (hheld ⟨v, rfl, hd⟩) hde
    | collectGarbage _ _ => cases hv
    | takePrinted => cases hv

/-- A closure that a call returns inside an array finds the frame of that call. -/
theorem Session.no_dangling_handle_of_returned_closure :
    ∃ m m' v, Session m ∧ Session.Step m (some (.value (some v))) m' ∧
      v.Holds ⟨1, 0⟩ ∧ m'.heap.contains ⟨1, 0⟩ := by
  have hm : Session (Machine.initial.collectGarbage [Env.global]).2 :=
    .step .start (.collectGarbage [Env.global] (by decide))
  have hstep := Session.Step.evaluate (m := (Machine.initial.collectGarbage [Env.global]).2)
    (Program.read "let make = fn(x) \x7b [fn(y) \x7b x + y \x7d] \x7d; make(2)").1 20
  have hlive := (Session.no_dangling_handle hm hstep).2.2.2 _ rfl ⟨1, 0⟩ ⟨1, 0⟩
    (.element (List.mem_singleton_self _) .closure) .refl
  exact ⟨_, _, _, hm, hstep, .element (List.mem_singleton_self _) .closure, hlive⟩

end Bhasha
