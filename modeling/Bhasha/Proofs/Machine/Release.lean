import Bhasha.Proofs.Machine.Depth
import Bhasha.Proofs.Machine.Sessions
import Bhasha.Proofs.Machine.Simulation

/-!
Giving frames back early cannot be observed.

The frames of a call can be given back when the call ends or be kept to the end of the program.
The two runs keep step, so a program ends under the one policy exactly if it ends under the
other. They then give the same answer and print the same text. A closure in the answer may hold
another handle in each run, but a renaming of handles takes what it reaches in the one run to
what it reaches in the other.
-/

namespace Bhasha

/-- The answers are the same up to a renaming of handles. -/
inductive Answer.Alike (σ : Env → Env) : Answer → Answer → Prop
  /-- Neither run has a value. -/
  | none : Alike σ (.value none) (.value none)
  /-- The values have one type, one text and one structure. -/
  | some {v v' : Value} : v'.type = v.type → v'.render = v.render → v' = v.rename σ →
      Alike σ (.value (some v)) (.value (some v'))
  /-- Both runs fail from the same cause on the same line. -/
  | failed (fault : Fault) : Alike σ (.failed fault) (.failed fault)

/-- The handles that can be reached from an answer. -/
def Answer.reach (a : Answer) (h : Heap) : Set Env :=
  {e | ∃ d, a.Holds d ∧ Relation.ReflTransGen h.Refers d e}

namespace Machine

variable {π : Renaming} {m m' : Machine}

lemma matches_initial : Machine.initial.Matches ⟨{Env.global}, id⟩ Machine.initial where
  sound := atRest_initial.sound
  sound' := atRest_initial.sound
  injOn := Function.injective_id.injOn
  frames := by
    rintro e rfl
    refine ⟨{}, rfl, rfl, ?_⟩
    rintro d (hd | ⟨b, hb, -⟩)
    · cases hd
    · cases hb
  outer := by
    intro o ho
    cases ho
  nextObject := rfl
  printed := rfl

/-- Two evaluations of a program to one depth: both run out of it, or the answers are the same. -/
lemma Matches.evaluateUnder (hm : m.Matches π m') (hglobal : π.Renames Env.global Env.global)
    (policy policy' : ReleasePolicy) (p : Program) (depth : Nat) {a a' : Answer} {m₁ m₁' : Machine}
    (ha : m.evaluateUnder policy p Env.global depth = (a, m₁))
    (ha' : m'.evaluateUnder policy' p Env.global depth = (a', m₁')) :
    (a = .exhausted ∧ a' = .exhausted) ∨
      ∃ ρ : Renaming, π ≤ ρ ∧ m₁.Matches ρ m₁' ∧ a.Alike ρ.map a' ∧ ∀ e, a.Holds e → e ∈ ρ.dom := by
  obtain ⟨ρ, hle, hm₁, hdom, hr⟩ :=
    Eval.Simulates.program policy policy' depth p hm hglobal
  rw [Machine.evaluateUnder, Prod.mk.injEq] at ha ha'
  obtain ⟨rfl, rfl⟩ := ha
  obtain ⟨rfl, rfl⟩ := ha'
  rw [hr]
  have hvalue : ∀ v : Value,
      (Answer.value (some v)).Alike ρ.map (.value (some (v.transfer 0 ρ.map))) := fun v =>
    .some (Value.type_mapParts v) (Value.render_transfer v) rfl
  rcases hout : ((Eval.program policy depth p Env.global).outcome m).1 with
    (v | fault | _) | (_ | v)
  · rw [hout] at hdom
    refine Or.inr ⟨ρ, hle, hm₁, hvalue v, ?_⟩
    rintro e ⟨w, hw, he⟩
    obtain rfl := Option.some.inj hw
    exact hdom e he
  · exact Or.inr ⟨ρ, hle, hm₁, .failed fault, fun e he => he.elim⟩
  · exact Or.inl ⟨rfl, rfl⟩
  · exact Or.inr ⟨ρ, hle, hm₁, .none, fun e ⟨_, hv, _⟩ => nomatch hv⟩
  · rw [hout] at hdom
    exact Or.inr ⟨ρ, hle, hm₁, hvalue v, hdom⟩

/-- A program that ends under one policy ends under any other. -/
lemma Matches.exists_ends (hm : m.Matches π m') (hglobal : π.Renames Env.global Env.global)
    {policy policy' : ReleasePolicy} {p : Program} (h : ∃ a m₁, m.Ends policy p a m₁) :
    ∃ a m₁, m'.Ends policy' p a m₁ := by
  obtain ⟨a, m₁, depth, ha, hne⟩ := h
  refine ⟨_, _, depth, rfl, fun hx => hne ?_⟩
  rcases hm.evaluateUnder hglobal policy policy' p depth ha rfl with ⟨ha, -⟩ | ⟨ρ, -, -, halike, -⟩
  · exact ha
  · rw [hx] at halike
    cases halike

end Machine

/-- Giving the frames of calls back when the calls end cannot be observed. A program in a new
outermost environment ends under the eager policy exactly if it ends without any frame being
given back. Both runs then print the same text and give the same answer up to a renaming of
handles, which also takes every frame that the answer reaches in the one run to the frame it
reaches in the other. -/
theorem eager_release_unobservable (p : Program) :
    ((∃ a m, Machine.initial.Ends .eager p a m) ↔ ∃ a m, Machine.initial.Ends .deferred p a m) ∧
      ∀ a m a' m', Machine.initial.Ends .eager p a m → Machine.initial.Ends .deferred p a' m' →
        m'.takePrinted.1 = m.takePrinted.1 ∧
          ∃ σ : Env → Env, a.Alike σ a' ∧ Set.InjOn σ (a.reach m.heap) ∧
            ∀ e ∈ a.reach m.heap,
              ∃ f, m.heap.frame? e = some f ∧ m'.heap.frame? (σ e) = some (f.rename σ) := by
  have hinitial := Machine.matches_initial
  have hglobal : Renaming.Renames ⟨{Env.global}, id⟩ Env.global Env.global :=
    ⟨fun _ he => he, rfl⟩
  refine ⟨⟨hinitial.exists_ends hglobal, hinitial.exists_ends hglobal⟩, ?_⟩
  intro a m a' m' ha ha'
  have hne := ha.choose_spec.2
  obtain ⟨depth, heq, heq'⟩ := ha.exists_depth ha'
  rcases hinitial.evaluateUnder hglobal .eager .deferred p depth heq heq' with
    ⟨hx, -⟩ | ⟨ρ, -, hm, halike, hdom⟩
  · exact absurd hx hne
  have hreach : ∀ e ∈ a.reach m.heap, e ∈ ρ.dom := fun e ⟨d, hd, hde⟩ =>
    hm.mem_dom_of_reaches (hdom d hd) hde
  refine ⟨hm.takePrinted, ρ.map, halike, hm.injOn.mono hreach, fun e he => ?_⟩
  obtain ⟨f, hf, hf', -⟩ := hm.frames e (hreach e he)
  exact ⟨f, hf, hf'⟩

/-- A closure outlives the call that made it, and the frame of another call is given back early in
the one run and not at all in the other. -/
theorem eager_release_unobservable_of_closure :
    ∃ p a m a' m', Machine.initial.Ends .eager p a m ∧ Machine.initial.Ends .deferred p a' m' ∧
      m.heap.size < m'.heap.size ∧ m'.takePrinted.1 = m.takePrinted.1 ∧
        ∃ σ : Env → Env, a.Alike σ a' := by
  let p : Program := (Program.read
    "let make = fn(x) \x7b fn(y) \x7b x + y \x7d \x7d; let add = make(2); puts(add(3)); add").1
  have ha : Machine.initial.Ends .eager p _ _ := ⟨20, rfl, by decide +kernel⟩
  have ha' : Machine.initial.Ends .deferred p _ _ := ⟨20, rfl, by decide +kernel⟩
  obtain ⟨hprinted, σ, halike, -⟩ := (eager_release_unobservable p).2 _ _ _ _ ha ha'
  exact ⟨p, _, _, _, _, ha, ha', by decide +kernel, hprinted, σ, halike⟩

end Bhasha
