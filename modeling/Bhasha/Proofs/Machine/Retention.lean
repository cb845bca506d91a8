import Bhasha.Proofs.Machine.Course
import Bhasha.Proofs.Machine.Visits
import Mathlib.Data.Set.Basic

/-!
What a call leaves behind.

When a call ends, the frames that were there before it are there, and of the frames that it has
made itself exactly those that its result reaches. That they are kept is safety, and it is shown
with the evaluator. That nothing else is kept has two reasons: the search of a release takes out
only what it reaches, and every frame that is made during a call and still there at its end
is a candidate of that search, also if an inner call has made it and kept it.
-/

namespace Bhasha

/-- The environments that have a frame. -/
def Machine.frames (m : Machine) : Set Env :=
  {e | m.heap.contains e}

/-- The environments that a value reaches: those it holds, those that their frames refer to, and so
on. -/
def Value.reach (v : Value) (h : Heap) : Set Env :=
  {e | ∃ d, v.Holds d ∧ Relation.ReflTransGen h.Refers d e}

lemma Value.reach_of_not_holds {v : Value} (hv : ∀ e, ¬ v.Holds e) (h : Heap) : v.reach h = ∅ :=
  Set.eq_empty_iff_forall_notMem.2 fun _ ⟨d, hd, _⟩ => hv d hd

/-! ## Calls of builtins -/

namespace Eval

variable {α : Type}

/-- An evaluation that does nothing to the heap. -/
def LeavesHeap (x : Eval α) : Prop :=
  ∀ m, (x.outcome m).2.heap = m.heap

lemma LeavesHeap.builtinCall (b : Builtin) (args : List Value) (line : Nat) :
    LeavesHeap (b.call args line) :=
  fun m => ((Elementary.builtinCall b args line).quiet m).1

end Eval

/-! ## Calls of closures -/

namespace Machine

variable {m m₁ m₂ : Machine} {scope : Env} {result : Value}

/-- What a result reaches at the end of a body outlives the release of the frames. -/
lemma contains_released_of_reaches {mark : Nat} {d e : Env}
    (hclosed : (Eval.released .eager mark result m₂).heap.Closed)
    (hd : (Eval.released .eager mark result m₂).heap.contains d)
    (hde : Relation.ReflTransGen m₂.heap.Refers d e) :
    (Eval.released .eager mark result m₂).heap.contains e := by
  induction hde with
  | refl => exact hd
  | tail _ hbe ih =>
    obtain ⟨f, hf, hrefers⟩ := hbe
    exact hclosed _ _ ⟨f, (frame?_released ih).trans hf, hrefers⟩

/-- At the end of a call its frames have been given back but for those that the result reaches. -/
lemma Enters.frames_released (hin : m.Enters scope m₁) (hclosed : m.heap.Closed)
    (hbody : m₁.Evolves .eager scope m₂) (hresult : ∀ e, result.Holds e → m₂.heap.contains e) :
    (Eval.released .eager m.callFrames.size result m₂).frames =
      m.frames ∪ result.reach m₂.heap := by
  have hreleased : m.Evolves .eager scope (Eval.released .eager m.callFrames.size result m₂) ∧ _ :=
    hin.evolves_released hclosed hbody hresult
  obtain ⟨hev, hheld⟩ := hreleased
  obtain ⟨made, hcalls, -, hlive⟩ := hin.exists_made hbody
  ext e
  constructor
  · intro he
    have hrelease : (m₂.heap.release made result).2.contains e := by
      rw [← drop_callFrames hcalls]
      exact he
    obtain ⟨hlive₂, hkept⟩ := Heap.contains_release.1 hrelease
    rcases hlive e hlive₂ with hold | hnew
    · exact Or.inl hold
    · obtain ⟨d, hd, -, hde⟩ := Heap.reaches_of_mem_release (hkept hnew)
      exact Or.inr ⟨d, hd, Relation.ReflTransGen.mono (fun _ _ hab => hab.1) _ _ hde⟩
  · rintro (hold | ⟨d, hd, hde⟩)
    · exact hev.contains hold
    · exact contains_released_of_reaches hev.sound.closed (hheld d hd) hde

end Machine

/-! ## All calls -/

namespace Call

variable {c : Call}

/-- A call either leaves the heap alone, or it is the call of a closure that begins with a frame of
its own and ends with the release of its frames. -/
lemma Sound.outcome_cases (hc : c.Sound) :
    (c.outcome .deferred = c.outcome .eager ∧ (c.outcome .eager).2.heap = c.machine.heap) ∨
      ∃ scope m₁ m₂ r, c.machine.Enters scope m₁ ∧ m₁.Evolves .eager scope m₂ ∧
        (∀ e, Eval.OutcomeHolds Value.Holds (Eval.callResult r) e → m₂.heap.contains e) ∧
          ∀ policy, c.outcome policy = (Eval.callResult r,
            Eval.released policy c.machine.callFrames.size
              ((Eval.callResult r).toOption.getD .null) m₂) := by
  obtain ⟨depth, callee, args, line, m⟩ := c
  cases callee with
  | closure id lambda env =>
    by_cases hlen : lambda.params.length = args.length
    · right
      have hin := Eval.enters_call hc.heap (hc.callee env .closure) lambda.params hc.args
      obtain ⟨hev, hheld⟩ := Eval.Safe.block (Eval.safeEvaluator_expression .eager depth) hin.sound
        hin.contains_scope lambda.body
      exact ⟨_, _, _, _, hin, hev, fun e he => hheld e (Eval.outcomeHolds_of_callResult he),
        fun policy => Eval.outcome_applyClosure policy _ hlen env line m
          (Eval.outcome_enter _ _ _ _) rfl⟩
    · left
      have hfail : ∀ policy, Eval.applyClosure policy (Eval.expression .eager depth) lambda env args
          line = Eval.fail (.argumentCount lambda.params.length args.length) line :=
        fun policy => if_neg hlen
      simp only [outcome, Eval.apply, hfail]
      exact ⟨trivial, rfl⟩
  | builtin b => exact Or.inl ⟨rfl, Eval.LeavesHeap.builtinCall b args line m⟩
  | int _ | bool _ | str _ _ | array _ _ | null => exact Or.inl ⟨rfl, rfl⟩

/-- Whether the frames of a call are given back changes neither how it ends nor any frame that is
left. -/
lemma Sound.outcome_deferred (hc : c.Sound) :
    (c.outcome .deferred).1 = (c.outcome .eager).1 ∧
      ∀ e ∈ (c.outcome .eager).2.frames,
        (c.outcome .eager).2.heap.frame? e = (c.outcome .deferred).2.heap.frame? e := by
  rcases hc.outcome_cases with ⟨heq, -⟩ | ⟨scope, m₁, m₂, r, -, -, -, hout⟩
  · rw [heq]
    exact ⟨rfl, fun _ _ => rfl⟩
  · rw [hout, hout]
    exact ⟨rfl, fun e he => Machine.frame?_released he⟩

/-- The frames after a call that yields a value. -/
lemma Sound.frames_of_ok (hc : c.Sound) {v : Value} (hv : (c.outcome .eager).1 = .ok v) :
    (c.outcome .eager).2.frames = c.machine.frames ∪ v.reach (c.outcome .deferred).2.heap := by
  rcases hc.outcome_cases with ⟨heq, hheap⟩ | ⟨scope, m₁, m₂, r, hin, hbody, hheld, hout⟩
  · -- nothing is new, and what the value holds was there
    have hsafe : Eval.Safe .eager Env.global Value.Holds
        (Eval.apply .eager (Eval.expression .eager c.depth) c.callee c.args c.line) c.machine :=
      .apply (Eval.safeEvaluator_expression .eager c.depth) hc.heap c.line hc.callee hc.args
    have hlive : ∀ e ∈ v.reach c.machine.heap, e ∈ c.machine.frames := by
      rintro e ⟨d, hd, hde⟩
      refine hc.heap.closed.contains_of_reaches ?_ hde
      have hheld := hsafe.2 d
      change Eval.OutcomeHolds Value.Holds (c.outcome .eager).1 d →
        (c.outcome .eager).2.heap.contains d at hheld
      rw [hv, hheap] at hheld
      exact hheld hd
    rw [heq, hheap, Set.union_eq_self_of_subset_right hlive]
    ext e
    change (c.outcome .eager).2.heap.contains e ↔ c.machine.heap.contains e
    rw [hheap]
  · rw [hout] at hv ⊢
    rw [hout]
    change Eval.callResult r = .ok v at hv
    rw [hv] at hheld ⊢
    exact hin.frames_released hc.heap.closed hbody hheld

/-- The frames after a call that is interrupted. -/
lemma Sound.frames_of_error (hc : c.Sound) {i : Interrupt}
    (hi : (c.outcome .eager).1 = .error i) : (c.outcome .eager).2.frames = c.machine.frames := by
  rcases hc.outcome_cases with ⟨-, hheap⟩ | ⟨scope, m₁, m₂, r, hin, hbody, -, hout⟩
  · ext e
    change (c.outcome .eager).2.heap.contains e ↔ c.machine.heap.contains e
    rw [hheap]
  · rw [hout] at hi ⊢
    change Eval.callResult r = .error i at hi
    rw [hi]
    have hnull : ∀ e, ¬ Value.null.Holds e := fun e he => by cases he
    have hframes := hin.frames_released hc.heap.closed hbody fun e he => absurd he (hnull e)
    rwa [Value.reach_of_not_holds hnull, Set.union_empty] at hframes

end Call

/-- A call keeps exactly the frames that its result needs. Take any call that is made in a session,
however deep, of whatever value and with whatever arguments. After a call that yields a value,
the frames are those from before it and those that the value reaches in the heap as the body has
left it; of the frames made during the call, these are the ones that stay, and they stay as they
are. After a call that is interrupted, and after one whose value holds no function, the frames
are those from before it. -/
theorem Session.call_keeps_reached_frames {c : Call} (hc : Session.Makes c) :
    (c.outcome .deferred).1 = (c.outcome .eager).1 ∧
      (∀ e ∈ (c.outcome .eager).2.frames,
        (c.outcome .eager).2.heap.frame? e = (c.outcome .deferred).2.heap.frame? e) ∧
      (∀ v, (c.outcome .eager).1 = .ok v →
        (c.outcome .eager).2.frames =
          c.machine.frames ∪ v.reach (c.outcome .deferred).2.heap) ∧
      (∀ i, (c.outcome .eager).1 = .error i →
        (c.outcome .eager).2.frames = c.machine.frames) ∧
      ∀ v, (c.outcome .eager).1 = .ok v → (∀ e, ¬ v.Holds e) →
        (c.outcome .eager).2.frames = c.machine.frames := by
  have hsound := hc.sound
  obtain ⟨hend, hsame⟩ := hsound.outcome_deferred
  refine ⟨hend, hsame, fun v hv => hsound.frames_of_ok hv, fun i hi => hsound.frames_of_error hi,
    fun v hv hnone => ?_⟩
  rw [hsound.frames_of_ok hv, Value.reach_of_not_holds hnone, Set.union_empty]

/-- Inside the body of one call, another is made whose result is a closure: its frame stays. -/
theorem Session.call_keeps_reached_frames_of_closure :
    ∃ c v, Session.Makes c ∧ (c.outcome .eager).1 = .ok v ∧ c.machine.heap.size = 2 ∧
      (c.outcome .eager).2.heap.size = 3 ∧
        (c.outcome .eager).2.frames =
          c.machine.frames ∪ v.reach (c.outcome .deferred).2.heap := by
  let p : Program := (Program.read
    "let wrap = fn(x) \x7b [fn(y) \x7b fn() \x7b y \x7d \x7d(x)] \x7d; wrap(10)").1
  have hstatement : Eval.StatementTurn (Eval.expression .eager 20) Env.global p.statements
      Machine.initial _ _ := .tail rfl .head
  have houter : Session.Makes _ := .program .start hstatement .refl (.call rfl rfl)
  have hinner : Session.Makes _ :=
    .nested houter (.body rfl rfl .head) (.single (.operand .head)) (.call rfl rfl)
  exact ⟨_, _, hinner, rfl, by decide +kernel, by decide +kernel,
    (Session.call_keeps_reached_frames hinner).2.2.1 _ rfl⟩

end Bhasha
