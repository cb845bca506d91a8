import Bhasha.Proofs.Machine.Course
import Bhasha.Proofs.Machine.Sessions

/-!
An evaluation writes only its own frame.

A binding shadows and never assigns: it is made in the frame of the environment itself. So of the
frames that a machine has, an evaluation changes one at most, and in it only what its own bindings
name. Frames that calls make are another matter; they are written to, and given back while others
stay. What has to be shown is that no frame that was there before is among them, whatever the calls
in progress have noted and however handles are used again.
-/

namespace Bhasha

namespace Machine

/-- A machine has all the frames of another, inside the same environments. Only the frame of one
environment can have other bindings, and only under names of a list. -/
def WritesOnly (env : Env) (names : List String) (m m' : Machine) : Prop :=
  ∀ e f, m.heap.frame? e = some f →
    ∃ f', m'.heap.frame? e = some f' ∧ f'.parent = f.parent ∧
      (e ≠ env → f'.bindings = f.bindings) ∧ ∀ name ∉ names, f'.get? name = f.get? name

variable {policy : ReleasePolicy} {env : Env} {names : List String} {m m' m₁ m₂ : Machine}

lemma WritesOnly.of_heap_eq (h : m'.heap = m.heap) : m.WritesOnly env names m' := by
  intro e f hf
  exact ⟨f, h ▸ hf, rfl, fun _ => rfl, fun _ _ => rfl⟩

lemma WritesOnly.contains (h : m.WritesOnly env names m') {e : Env} (he : m.heap.contains e) :
    m'.heap.contains e := by
  obtain ⟨f, hf⟩ := Heap.contains_iff.1 he
  obtain ⟨f', hf', -⟩ := h e f hf
  exact Heap.contains_of_frame? hf'

lemma WritesOnly.trans (h₁ : m.WritesOnly env names m₁) (h₂ : m₁.WritesOnly env names m₂) :
    m.WritesOnly env names m₂ := by
  intro e f hf
  obtain ⟨f₁, hf₁, hparent₁, hbindings₁, hnames₁⟩ := h₁ e f hf
  obtain ⟨f₂, hf₂, hparent₂, hbindings₂, hnames₂⟩ := h₂ e f₁ hf₁
  exact ⟨f₂, hf₂, hparent₂.trans hparent₁, fun he => (hbindings₂ he).trans (hbindings₁ he),
    fun name hname => (hnames₂ name hname).trans (hnames₁ name hname)⟩

lemma WritesOnly.bind {name : String} (hname : name ∈ names) (value : Value) :
    m.WritesOnly env names { m with heap := m.heap.set env name value } := by
  intro e f hf
  by_cases he : e = env
  · subst he
    refine ⟨f.set name value, by simp [Heap.frame?_set, hf], rfl, fun hne => absurd rfl hne, ?_⟩
    intro other hother
    rw [Frame.get?_set, if_neg]
    rintro rfl
    exact hother hname
  · exact ⟨f, by simp [Heap.frame?_set, he, hf], rfl, fun _ => rfl, fun _ _ => rfl⟩

/-- In an environment that is not the one written to, frames do not change. -/
lemma WritesOnly.frame?_eq (h : m.WritesOnly env names m') {e : Env} {f : Frame} (he : e ≠ env)
    (hf : m.heap.frame? e = some f) : m'.heap.frame? e = some f := by
  obtain ⟨⟨bindings, parent⟩, hf', hparent, hbindings, -⟩ := h e f hf
  have heq : (⟨bindings, parent⟩ : Frame) = f := by
    obtain rfl : parent = f.parent := hparent
    obtain rfl : bindings = f.bindings := hbindings he
    rfl
  rw [hf', heq]

/-! ## Calls -/

/-- At the end of a call, frames that it has not noted stay as they are. -/
lemma frame?_released_of_not_mem {mark : Nat} {e : Env}
    (he : e ∉ m.callFrames.toList.drop mark) (policy : ReleasePolicy) (result : Value) :
    (Eval.released policy mark result m).heap.frame? e = m.heap.frame? e := by
  cases policy with
  | deferred => rfl
  | eager =>
    show (m.heap.release (m.callFrames.toList.drop mark) result).2.frame? e = m.heap.frame? e
    rw [Heap.frame?_release, if_neg]
    exact fun hc => he hc.1

/-- Of the frames that a call has noted, some are still noted at its end, and those from before it
are. -/
lemma exists_callFrames_released {made : List Env}
    (hcalls : m₂.callFrames.toList = m.callFrames.toList ++ made) (policy : ReleasePolicy)
    (result : Value) :
    ∃ kept ⊆ made, (Eval.released policy m.callFrames.size result m₂).callFrames.toList =
      m.callFrames.toList ++ kept := by
  cases policy with
  | deferred => exact ⟨made, List.Subset.refl made, hcalls⟩
  | eager =>
    simp only [Eval.released, drop_callFrames hcalls, take_callFrames hcalls]
    by_cases hmark : m.callFrames.size = 0
    · -- the outermost call leaves what it keeps to the next collection
      have hnil : m.callFrames.toList = [] := by simpa using hmark
      exact ⟨[], List.nil_subset _, by simp [hmark, hnil]⟩
    · exact ⟨(m₂.heap.release made result).1, fun e he => (Heap.mem_release_fst.1 he).1,
        by simp [hmark]⟩

/-- What an evaluation does to the frames and the calls of a machine: beside what it writes, it
notes frames, and none of them was there before. -/
structure Leads (env : Env) (names : List String) (m m' : Machine) : Prop where
  wellFormed : m'.heap.WellFormed
  writes : m.WritesOnly env names m'
  calls : ∃ made : List Env, m'.callFrames.toList = m.callFrames.toList ++ made ∧
    ∀ e ∈ made, ¬ m.heap.contains e

lemma Leads.trans (h₁ : m.Leads env names m₁) (h₂ : m₁.Leads env names m₂) :
    m.Leads env names m₂ := by
  obtain ⟨made₁, hcalls₁, hnew₁⟩ := h₁.calls
  obtain ⟨made₂, hcalls₂, hnew₂⟩ := h₂.calls
  refine ⟨h₂.wellFormed, h₁.writes.trans h₂.writes, made₁ ++ made₂, ?_, ?_⟩
  · rw [hcalls₂, hcalls₁, List.append_assoc]
  · intro e he hlive
    rcases List.mem_append.1 he with he | he
    · exact hnew₁ e he hlive
    · exact hnew₂ e he (h₁.writes.contains hlive)

/-- A call whose body does no more than an evaluation can leaves every frame as it is, and it has
noted new frames only. -/
lemma Leads.released {captured : Env} {inner : List String} (hw : m.heap.WellFormed)
    (hbody : (Eval.entered captured m).2.Leads (Eval.entered captured m).1 inner m')
    (result : Value) :
    m.Leads env names (Eval.released policy m.callFrames.size result m') := by
  obtain ⟨made, hcalls, hnew⟩ := hbody.calls
  set scope := (Eval.entered captured m).1 with hscope
  have hfresh : ¬ m.heap.contains scope :=
    Heap.not_contains_of_frame? (Heap.frame?_allocate_fst hw _)
  have hentered : ∀ e f, m.heap.frame? e = some f →
      e ≠ scope ∧ (Eval.entered captured m).2.heap.frame? e = some f := by
    intro e f hf
    have hne : e ≠ scope := by
      rintro rfl
      exact hfresh (Heap.contains_of_frame? hf)
    exact ⟨hne, by rw [frame?_entered hw, if_neg hne, hf]⟩
  have hnoted : m'.callFrames.toList = m.callFrames.toList ++ (scope :: made) := by
    rw [hcalls]
    simp [Eval.entered, hscope]
  have hyoung : ∀ e ∈ scope :: made, ¬ m.heap.contains e := by
    intro e he hlive
    rcases List.mem_cons.1 he with rfl | he
    · exact hfresh hlive
    · obtain ⟨f, hf⟩ := Heap.contains_iff.1 hlive
      exact hnew e he (Heap.contains_of_frame? (hentered e f hf).2)
  refine ⟨wellFormed_released hbody.wellFormed policy _ result, fun e f hf => ?_, ?_⟩
  · obtain ⟨hne, hf₁⟩ := hentered e f hf
    refine ⟨f, ?_, rfl, fun _ => rfl, fun _ _ => rfl⟩
    rw [frame?_released_of_not_mem, hbody.writes.frame?_eq hne hf₁]
    rw [drop_callFrames hnoted]
    exact fun he => hyoung e he (Heap.contains_of_frame? hf)
  · obtain ⟨kept, hkept, hcalls'⟩ := exists_callFrames_released hnoted policy result
    exact ⟨kept, hcalls', fun e he => hyoung e (hkept he)⟩

/-- Whatever course an evaluation takes, it writes only the frame of its environment. -/
lemma Course.leads (h : Course policy env names m m') (hw : m.heap.WellFormed) :
    m.Leads env names m' := by
  induction h with
  | quiet hheap hcalls =>
    exact ⟨hheap ▸ hw, .of_heap_eq hheap, [], by simp [hcalls], by simp⟩
  | bind value hname => exact ⟨hw.set _ _ value, .bind hname value, [], by simp, by simp⟩
  | call result _ ih => exact (ih (hw.allocate _)).released hw result
  | trans _ _ ih₁ ih₂ => exact (ih₁ hw).trans (ih₂ (ih₁ hw).wellFormed)

end Machine

/-- Evaluation writes only its own frame. Take any machine whose list of free slots is right, and
any environment, be its handle stale or not. However an expression, a statement or a block ends
there, every frame that was there is still there, inside the same environment. Frames other than
that of the environment have the same bindings, and in the latter the value of a name can have
changed only if the name is bound outside of function literals. A call, of whatever value and with
whatever arguments, leaves every frame as it is. -/
theorem Eval.writes_only_own_frame {m : Machine} (hw : m.heap.WellFormed) (policy : ReleasePolicy)
    (depth : Nat) :
    (∀ e env, m.WritesOnly env e.lets ((expression policy depth e env).outcome m).2) ∧
      (∀ s env,
        m.WritesOnly env s.lets ((statement (expression policy depth) s env).outcome m).2) ∧
      (∀ b env, m.WritesOnly env b.lets ((block (expression policy depth) b env).outcome m).2) ∧
      ∀ callee args line e f, m.heap.frame? e = some f →
        ((apply policy (expression policy depth) callee args line).outcome m).2.heap.frame? e =
          some f := by
  have heval := takesCourse_expression policy depth
  refine ⟨fun e env => ((heval e env m).leads hw).writes,
    fun s env => ((Takes.statement heval s env m).leads hw).writes,
    fun b env => ((Takes.block heval b env m).leads hw).writes, ?_⟩
  intro callee args line e f hf
  -- a call belongs to no environment, so its course is also one in an environment that is not `e`
  have helsewhere : e ≠ ⟨e.index + 1, e.generation⟩ := by
    intro heq
    have hindex : e.index = e.index + 1 := congrArg Env.index heq
    omega
  have hcall : Takes policy ⟨e.index + 1, e.generation⟩ []
      (apply policy (expression policy depth) callee args line) :=
    .apply heval callee args line
  exact ((hcall m).leads hw).writes.frame?_eq helsewhere hf

/-- A conditional binds a name in the outermost environment, a call inside of it binds the same name
in a frame of its own, and the frame of an earlier call stays. -/
theorem Eval.writes_only_own_frame_of_conditional :
    ∃ (m m' : Machine) (b : Block), m.heap.WellFormed ∧ m.heap.size = 2 ∧ b.lets = ["x"] ∧
      ((block (expression .eager 20) b Env.global).outcome m).2 = m' ∧
      (m'.heap.get? Env.global "x").map Value.render = some "8" ∧
      m.WritesOnly Env.global ["x"] m' := by
  let m : Machine := (Machine.initial.evaluate (Program.read
    "let get = fn(y) \x7b fn() \x7b y \x7d \x7d(7); let x = 1").1 Env.global 20).2
  let b : Block := .mk default
    (Program.read "if (x) \x7b let x = fn(z) \x7b let x = z; x + 1 \x7d(get()) \x7d").1.statements
  have hw : m.heap.WellFormed := (Machine.atRest_initial.evaluate _ 20).1.sound.wellFormed
  have hlets : b.lets = ["x"] := by decide +kernel
  have hwrites := (Eval.writes_only_own_frame hw .eager 20).2.2.1 b Env.global
  rw [hlets] at hwrites
  exact ⟨m, _, b, hw, by decide +kernel, hlets, rfl, by decide +kernel, hwrites⟩

end Bhasha
