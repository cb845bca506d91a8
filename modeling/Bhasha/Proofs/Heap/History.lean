import Bhasha.Proofs.Heap.Search
import Mathlib.Data.Set.Card
import Mathlib.Order.Bounds.Basic

/-!
Heaps and their histories.

A heap begins empty, and then frames are made, bound in and given back in any order. Nothing is
asked of the handles that an operation is given: they can be stale, or stand in a list twice. The
list of free slots is right all the same, so a new frame never takes the place of another.

Slots are never given up, and a new one is made only when all are in use. So there are as many
slots as there were frames at the time when there were most.
-/

namespace Bhasha.Heap

/-! ## Operations and histories -/

/-- An operation on a heap, with whatever handles it is given. -/
inductive Op where
  /-- A new frame is made. -/
  | allocate (parent : Option Env)
  /-- A name is bound. -/
  | set (env : Env) (name : String) (value : Value)
  /-- What cannot be reached from the roots is given back. -/
  | collect (roots : List Env)
  /-- The candidates that the result does not reach are given back. -/
  | release (candidates : List Env) (result : Value)

/-- The heap after an operation. -/
def perform (h : Heap) : Op → Heap
  | .allocate parent => (h.allocate parent).2
  | .set env name value => h.set env name value
  | .collect roots => (h.collect roots).2
  | .release candidates result => (h.release candidates result).2

/-- The heap after a history of operations, which begins with the heap without frames. -/
def after (ops : List Op) : Heap :=
  ops.foldl perform empty

@[simp] lemma after_concat (ops : List Op) (op : Op) :
    after (ops ++ [op]) = (after ops).perform op := by
  simp [after]

lemma WellFormed.perform {h : Heap} (hw : h.WellFormed) (op : Op) : (h.perform op).WellFormed := by
  cases op with
  | allocate parent => exact hw.allocate parent
  | set env name value => exact hw.set env name value
  | collect roots => exact hw.reclaimAll _
  | release candidates result => exact hw.reclaimAll _

lemma wellFormed_after (ops : List Op) : (after ops).WellFormed := by
  induction ops using List.reverseRecOn with
  | nil => exact wellFormed_empty
  | append_singleton ops op ih =>
    rw [after_concat]
    exact ih.perform op

/-! ## Slots -/

lemma size_slots_set (h : Heap) (e : Env) (name : String) (v : Value) :
    (h.set e name v).slots.size = h.slots.size := by
  rw [set]
  split
  · rw [setFrame]
    split
    · exact Array.size_setIfInBounds
    · rfl
  · rfl

lemma size_slots_reclaim (h : Heap) (e : Env) : (h.reclaim e).slots.size = h.slots.size := by
  rw [reclaim]
  split
  · exact Array.size_setIfInBounds
  · rfl

lemma size_slots_reclaimAll (h : Heap) (es : List Env) :
    (h.reclaimAll es).slots.size = h.slots.size := by
  rw [reclaimAll]
  induction es generalizing h with
  | nil => rfl
  | cons e es ih => rw [List.foldl_cons, ih, size_slots_reclaim]

/-- A new frame goes into a free slot. If there is none, it goes into one slot more, and then all
slots are in use. -/
lemma size_slots_allocate (h : Heap) (parent : Option Env) :
    (h.allocate parent).2.slots.size = h.slots.size ∨
      (h.allocate parent).2.slots.size = h.slots.size + 1 ∧ (h.allocate parent).2.free = [] := by
  rcases hfree : h.free with _ | ⟨i, free⟩
  · right
    simp [allocate, hfree]
  · left
    simp [allocate, hfree]

/-- An operation leaves the number of slots, or it makes one more and leaves none of them free. -/
lemma size_slots_perform (h : Heap) (op : Op) :
    (h.perform op).slots.size = h.slots.size ∨
      (h.perform op).slots.size = h.slots.size + 1 ∧ (h.perform op).free = [] := by
  cases op with
  | allocate parent => exact size_slots_allocate h parent
  | set env name value => exact Or.inl (size_slots_set h env name value)
  | collect roots => exact Or.inl (size_slots_reclaimAll h _)
  | release candidates result => exact Or.inl (size_slots_reclaimAll h _)

/-- Slots are never given up. -/
lemma size_slots_mono {earlier ops : List Op} (h : earlier <+: ops) :
    (after earlier).slots.size ≤ (after ops).slots.size := by
  obtain ⟨later, rfl⟩ := h
  induction later using List.reverseRecOn with
  | nil => rw [List.append_nil]
  | append_singleton later op ih =>
    rw [← List.append_assoc, after_concat]
    have hstep := size_slots_perform (after (earlier ++ later)) op
    omega

/-! ## Frames -/

/-- The handles that have a frame. -/
def handles (h : Heap) : Set Env :=
  {e | h.contains e}

/-- A slot holds the frame of some handle exactly if it is not free. -/
lemma WellFormed.image_index_handles {h : Heap} (hw : h.WellFormed) :
    Env.index '' h.handles = ↑(Finset.range h.slots.size \ h.free.toFinset) := by
  ext i
  simp only [Set.mem_image, Finset.coe_sdiff, Finset.coe_range, List.coe_toFinset, Set.mem_sdiff,
    Set.mem_Iio, Set.mem_ofPred_eq, hw.mem_free_iff]
  constructor
  · rintro ⟨e, he, rfl⟩
    refine ⟨index_lt_of_contains he, ?_⟩
    rintro ⟨slot, hslot, hnone⟩
    obtain ⟨f, hf⟩ := contains_iff.1 he
    rw [frame?_eq_some_iff.1 hf, Option.some.injEq] at hslot
    rw [← hslot] at hnone
    cases hnone
  · rintro ⟨hlt, hfull⟩
    obtain ⟨f, hf⟩ : ∃ f, h.slots[i].frame = some f := by
      rw [← Option.ne_none_iff_exists']
      intro hnone
      exact hfull ⟨h.slots[i], Array.getElem?_eq_getElem hlt, hnone⟩
    refine ⟨⟨i, h.slots[i].generation⟩, contains_of_frame? (f := f) ?_, rfl⟩
    rw [frame?_eq_some_iff, Array.getElem?_eq_getElem hlt, ← hf]

lemma WellFormed.toFinset_free_subset {h : Heap} (hw : h.WellFormed) :
    h.free.toFinset ⊆ Finset.range h.slots.size := by
  intro i hi
  obtain ⟨slot, hslot, -⟩ := (hw.mem_free_iff i).1 (List.mem_toFinset.1 hi)
  exact Finset.mem_range.2 (Array.getElem?_eq_some_iff.1 hslot).1

lemma WellFormed.length_free_le {h : Heap} (hw : h.WellFormed) :
    h.free.length ≤ h.slots.size := by
  have hcard := Finset.card_le_card hw.toFinset_free_subset
  rwa [List.toFinset_card_of_nodup hw.free_nodup, Finset.card_range] at hcard

/-- What is counted by subtraction is the number of frames. -/
lemma WellFormed.encard_handles {h : Heap} (hw : h.WellFormed) : h.handles.encard = h.size := by
  have hinj : Set.InjOn Env.index h.handles := fun d hd e he hi => eq_of_index_eq hd he hi
  rw [← hinj.encard_image, hw.image_index_handles, Set.encard_coe_eq_coe_finsetCard,
    Finset.card_sdiff_of_subset hw.toFinset_free_subset, Finset.card_range,
    List.toFinset_card_of_nodup hw.free_nodup]
  rfl

/-- At some time in a history, all the slots that there are at its end were in use. -/
lemma exists_full (ops : List Op) :
    ∃ earlier, earlier <+: ops ∧ (after earlier).size = (after ops).slots.size := by
  induction ops using List.reverseRecOn with
  | nil => exact ⟨[], List.prefix_rfl, rfl⟩
  | append_singleton ops op ih =>
    rcases size_slots_perform (after ops) op with hsame | ⟨-, hfull⟩
    · obtain ⟨earlier, hearlier, hsize⟩ := ih
      refine ⟨earlier, hearlier.trans (List.prefix_append ops [op]), ?_⟩
      rw [hsize, after_concat, hsame]
    · -- the slot was made just now, when no other was free
      refine ⟨ops ++ [op], List.prefix_rfl, ?_⟩
      rw [after_concat, size, hfull, List.length_nil, Nat.sub_zero]

/-- There are as many slots as there were frames when there were most. -/
lemma isGreatest_size_slots (ops : List Op) :
    IsGreatest {n : ℕ | ∃ earlier, earlier <+: ops ∧ (after earlier).handles.encard = n}
      (after ops).slots.size := by
  constructor
  · obtain ⟨earlier, hearlier, hsize⟩ := exists_full ops
    refine ⟨earlier, hearlier, ?_⟩
    rw [(wellFormed_after earlier).encard_handles, hsize]
  · rintro n ⟨earlier, hearlier, hn⟩
    rw [(wellFormed_after earlier).encard_handles, Nat.cast_inj] at hn
    have hle : (after earlier).size ≤ (after earlier).slots.size := Nat.sub_le _ _
    have hmono := size_slots_mono hearlier
    omega

/-- The slot of a new frame was empty. -/
lemma WellFormed.frame_of_allocate {h : Heap} (hw : h.WellFormed) (parent : Option Env)
    {slot : Slot} (hslot : h.slots[(h.allocate parent).1.index]? = some slot) :
    slot.frame = none := by
  rcases hfree : h.free with _ | ⟨i, free⟩
  · simp [Heap.allocate, hfree] at hslot
  · obtain ⟨slot', hslot', hnone⟩ := (hw.mem_free_iff i).1 (by simp [hfree])
    simp only [Heap.allocate, hfree, hslot', Option.some.injEq] at hslot
    rw [← hslot, hnone]

/-- How a heap is laid out, whatever its history: frames made inside any handles, bindings,
collections and releases in any order, with stale and repeated handles. The list of free slots names
exactly the slots without a frame, each once. The size is the number of frames, and there are as
many slots as there were frames when there were most. The next frame goes into a slot without a
frame, under a handle that has none, and leaves every frame as it is. -/
theorem layout_after (ops : List Op) :
    (after ops).free.Nodup ∧
    (∀ i, i ∈ (after ops).free ↔
      ∃ slot, (after ops).slots[i]? = some slot ∧ slot.frame = none) ∧
    ((after ops).free.length ≤ (after ops).slots.size ∧
      (after ops).handles.encard = (after ops).size) ∧
    IsGreatest {n : ℕ | ∃ earlier, earlier <+: ops ∧ (after earlier).handles.encard = n}
      (after ops).slots.size ∧
    ∀ parent,
      (∀ slot, (after ops).slots[((after ops).allocate parent).1.index]? = some slot →
        slot.frame = none) ∧
      ((after ops).allocate parent).1 ∉ (after ops).handles ∧
      ((after ops).allocate parent).2.frame? ((after ops).allocate parent).1 = some { parent } ∧
      ∀ e ∈ (after ops).handles,
        ((after ops).allocate parent).2.frame? e = (after ops).frame? e := by
  have hw := wellFormed_after ops
  refine ⟨hw.free_nodup, hw.mem_free_iff, ⟨hw.length_free_le, hw.encard_handles⟩,
    isGreatest_size_slots ops, fun parent => ?_⟩
  have hfresh : ((after ops).allocate parent).1 ∉ (after ops).handles :=
    not_contains_of_frame? (frame?_allocate_fst hw parent)
  refine ⟨fun slot => hw.frame_of_allocate parent, hfresh, ?_, fun e he => ?_⟩
  · rw [frame?_allocate hw, if_pos rfl]
  · rw [frame?_allocate hw, if_neg]
    rintro rfl
    exact hfresh he

-- a candidate that is given twice, and is stale the second time, frees one slot
example : (after [.allocate none, .allocate none, .release [⟨1, 0⟩, ⟨1, 0⟩] .null]).free = [1] :=
  rfl

end Bhasha.Heap
