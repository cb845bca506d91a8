import Bhasha.Proofs.Machine.Evolution

/-!
What frames bind.

Nothing gets into a frame but by a binding or as an argument of a call. A new frame is empty, and
giving frames back changes none of those that stay. So a property of all values that a machine binds
outlives everything that is done to its frames, if it holds of the values that are bound on the way.
-/

namespace Bhasha.Machine

open Eval (entered bound released)

/-- All values that the frames bind have a property. -/
structure BindsOnly (P : Value → Prop) (m : Machine) : Prop where
  wellFormed : m.heap.WellFormed
  frames : ∀ e f, m.heap.frame? e = some f → ∀ b ∈ f.bindings, P b.2

variable {P Q : Value → Prop} {m m' : Machine}

lemma BindsOnly.of_heap_eq (hm : m.BindsOnly P) (hheap : m'.heap = m.heap) : m'.BindsOnly P :=
  ⟨hheap ▸ hm.wellFormed, hheap ▸ hm.frames⟩

lemma BindsOnly.mono (hm : m.BindsOnly P) (h : ∀ v, P v → Q v) : m.BindsOnly Q :=
  ⟨hm.wellFormed, fun e f hf b hb => h b.2 (hm.frames e f hf b hb)⟩

lemma BindsOnly.define (hm : m.BindsOnly P) (env : Env) (name : String) {v : Value} (hv : P v) :
    BindsOnly P { m with heap := m.heap.set env name v } := by
  refine ⟨hm.wellFormed.set env name v, fun e f hf b hb => ?_⟩
  rw [Heap.frame?_set] at hf
  split at hf
  · obtain ⟨g, hg, rfl⟩ := Option.map_eq_some_iff.1 hf
    rcases Frame.mem_rebind hb with hb | rfl
    · exact hm.frames env g hg b hb
    · exact hv
  · exact hm.frames e f hf b hb

lemma BindsOnly.entered (hm : m.BindsOnly P) (env : Env) : (entered env m).2.BindsOnly P := by
  refine ⟨hm.wellFormed.allocate (some env), fun e f hf b hb => ?_⟩
  rw [frame?_entered hm.wellFormed] at hf
  split at hf
  · obtain rfl := Option.some.inj hf
    cases hb
  · exact hm.frames e f hf b hb

lemma BindsOnly.bound (hm : m.BindsOnly P) (scope : Env) {pairs : List (Identifier × Value)}
    (hpairs : ∀ p ∈ pairs, P p.2) : (bound scope pairs m).BindsOnly P := by
  induction pairs generalizing m with
  | nil => exact hm
  | cons pair rest ih =>
    obtain ⟨hpair, hrest⟩ := List.forall_mem_cons.1 hpairs
    exact ih (hm.define scope pair.1.name hpair) hrest

lemma BindsOnly.released (hm : m.BindsOnly P) (policy : ReleasePolicy) (mark : Nat)
    (result : Value) : (released policy mark result m).BindsOnly P := by
  refine ⟨wellFormed_released hm.wellFormed policy mark result, fun e f hf => ?_⟩
  rw [frame?_released (Heap.contains_of_frame? hf)] at hf
  exact hm.frames e f hf

lemma BindsOnly.collectGarbage (hm : m.BindsOnly P) (roots : List Env) :
    (m.collectGarbage roots).2.BindsOnly P :=
  ⟨hm.wellFormed.reclaimAll _, fun e f hf => hm.frames e f (Heap.frame?_of_reclaimAll hf)⟩

lemma BindsOnly.get? (hm : m.BindsOnly P) {env : Env} {name : String} {v : Value}
    (hv : m.heap.get? env name = some v) : P v := by
  obtain ⟨e, f, hf, hmem⟩ := Heap.exists_frame_of_get? hv
  exact hm.frames e f hf _ hmem

lemma bindsOnly_initial (P : Value → Prop) : Machine.initial.BindsOnly P := by
  have hw := Heap.wellFormed_empty
  refine ⟨hw.allocate none, fun e f hf b hb => ?_⟩
  rw [show Machine.initial.heap = (Heap.empty.allocate none).2 from rfl,
    Heap.frame?_allocate hw] at hf
  split at hf
  · obtain rfl := Option.some.inj hf
    cases hb
  · simp [Heap.frame?, Heap.empty] at hf

end Bhasha.Machine
