import Bhasha.Heap.Reclaim
import Mathlib.Tactic.Common

/-!
The frames of a heap, operation by operation.

Seen from outside, a heap is the partial function `Heap.frame?` from handles to frames. This file
says what each operation does to that function, so that what follows need not look at slots.
Making a frame needs one fact about the slots: the list of free slots names every empty slot, and
no other, once. That is `Heap.WellFormed`, and every operation keeps it.
-/

namespace Bhasha.Heap

/-- The list of free slots names exactly the slots without a frame, each once. -/
structure WellFormed (h : Heap) : Prop where
  free_nodup : h.free.Nodup
  mem_free_iff : ∀ i, i ∈ h.free ↔ ∃ slot, h.slots[i]? = some slot ∧ slot.frame = none

lemma wellFormed_empty : WellFormed empty :=
  ⟨List.nodup_nil, fun i => by simp [empty]⟩

/-! ## Looking a handle up -/

lemma frame?_eq_some_iff {h : Heap} {e : Env} {f : Frame} :
    h.frame? e = some f ↔ h.slots[e.index]? = some ⟨e.generation, some f⟩ := by
  unfold frame?
  rcases hs : h.slots[e.index]? with _ | ⟨generation, frame⟩
  · simp
  · by_cases hg : generation = e.generation
    · simp [hg]
    · simp [hg]

lemma contains_iff {h : Heap} {e : Env} : h.contains e ↔ ∃ f, h.frame? e = some f := by
  simp [contains, Option.isSome_iff_exists]

lemma contains_of_frame? {h : Heap} {e : Env} {f : Frame} (hf : h.frame? e = some f) :
    h.contains e :=
  contains_iff.2 ⟨f, hf⟩

lemma frame?_eq_none_of_not_contains {h : Heap} {e : Env} (he : ¬ h.contains e) :
    h.frame? e = none := by
  simpa [contains] using he

lemma not_contains_of_frame? {h : Heap} {e : Env} (he : h.frame? e = none) :
    ¬ h.contains e := by
  simp [contains, he]

/-- Two handles with frames in one slot are the same handle. -/
lemma eq_of_index_eq {h : Heap} {d e : Env} (hd : h.contains d) (he : h.contains e)
    (hi : d.index = e.index) : d = e := by
  obtain ⟨f, hf⟩ := contains_iff.1 hd
  obtain ⟨g, hg⟩ := contains_iff.1 he
  rw [frame?_eq_some_iff] at hf hg
  rw [hi, hg] at hf
  obtain ⟨di, dg⟩ := d
  obtain ⟨ei, eg⟩ := e
  simp only [Option.some.injEq, Slot.mk.injEq] at hf hi
  rw [hi, hf.1]

lemma index_lt_of_contains {h : Heap} {e : Env} (he : h.contains e) :
    e.index < h.slots.size := by
  obtain ⟨f, hf⟩ := contains_iff.1 he
  rw [frame?_eq_some_iff] at hf
  exact (Array.getElem?_eq_some_iff.1 hf).1

/-! ## Binding a name -/

lemma frame?_setFrame {h : Heap} {e : Env} (he : h.contains e) (f : Frame) (d : Env) :
    (h.setFrame e f).frame? d = if d = e then some f else h.frame? d := by
  have hlt := index_lt_of_contains he
  rw [setFrame, if_pos he]
  by_cases hd : d = e
  · subst hd
    rw [if_pos rfl, frame?_eq_some_iff]
    simp [hlt]
  · rw [if_neg hd]
    by_cases hi : e.index = d.index
    · -- another generation of the slot: stale before and after
      have hg : e.generation ≠ d.generation := by
        intro hg
        obtain ⟨di, dg⟩ := d
        obtain ⟨ei, eg⟩ := e
        simp only at hi hg
        exact hd (by rw [hi, hg])
      have hstale : h.frame? d = none :=
        frame?_eq_none_of_not_contains fun hc => hd (eq_of_index_eq hc he hi.symm)
      rw [hstale]
      simp [frame?, ← hi, hlt, hg]
    · simp [frame?, hi]

/-- A binding changes the frame it is made in and no other. -/
lemma frame?_set (h : Heap) (e : Env) (name : String) (v : Value) (d : Env) :
    (h.set e name v).frame? d =
      if d = e then (h.frame? e).map (·.set name v) else h.frame? d := by
  unfold set
  rcases hf : h.frame? e with _ | f
  · by_cases hd : d = e
    · simp [hd, hf]
    · simp [hd]
  · simpa using frame?_setFrame (contains_of_frame? hf) _ d

@[simp] lemma contains_set (h : Heap) (e : Env) (name : String) (v : Value) (d : Env) :
    (h.set e name v).contains d = h.contains d := by
  simp only [contains, frame?_set]
  by_cases hd : d = e
  · simp [hd]
  · simp [hd]

lemma WellFormed.set {h : Heap} (hw : h.WellFormed) (e : Env) (name : String) (v : Value) :
    (h.set e name v).WellFormed := by
  unfold Heap.set
  rcases hf : h.frame? e with _ | f
  · exact hw
  · have he := contains_of_frame? hf
    simp only [setFrame, if_pos he]
    refine ⟨hw.free_nodup, fun i => ?_⟩
    rw [hw.mem_free_iff i]
    rw [frame?_eq_some_iff] at hf
    obtain ⟨hlt, hget⟩ := Array.getElem?_eq_some_iff.1 hf
    by_cases hi : e.index = i
    · -- the slot had a frame and has one
      subst hi
      simp [hlt, hget]
    · simp [hi]

/-! ## Making a frame -/

/-- The handle of a new frame had no frame. -/
lemma frame?_allocate_fst {h : Heap} (hw : h.WellFormed) (parent : Option Env) :
    h.frame? (h.allocate parent).1 = none := by
  unfold allocate
  rcases hfree : h.free with _ | ⟨i, free⟩
  · simp [frame?]
  · obtain ⟨slot, hslot, hnone⟩ := (hw.mem_free_iff i).1 (by simp [hfree])
    simp [frame?, hslot, hnone]

/-- A new frame has no bindings, and every other frame stays as it was. -/
lemma frame?_allocate {h : Heap} (hw : h.WellFormed) (parent : Option Env) (d : Env) :
    (h.allocate parent).2.frame? d =
      if d = (h.allocate parent).1 then some { parent } else h.frame? d := by
  unfold allocate
  rcases hfree : h.free with _ | ⟨i, free⟩
  · obtain ⟨di, dg⟩ := d
    by_cases hd : h.slots.size = di
    · subst hd
      by_cases hg : dg = 0
      · simp [frame?, hg]
      · simp [frame?, hg, Ne.symm hg]
    · have hd' : ¬ di = h.slots.size := fun hc => hd hc.symm
      simp [frame?, Array.getElem?_push, hd']
  · obtain ⟨⟨generation, frame⟩, hslot, hnone⟩ := (hw.mem_free_iff i).1 (by simp [hfree])
    obtain ⟨hlt, hget⟩ := Array.getElem?_eq_some_iff.1 hslot
    obtain ⟨di, dg⟩ := d
    simp only at hnone
    subst hnone
    by_cases hd : i = di
    · subst hd
      by_cases hg : dg = generation
      · simp [frame?, hlt, hget, hg, Array.getD_eq_getD_getElem?]
      · simp [frame?, hlt, hget, hg, Ne.symm hg, Array.getD_eq_getD_getElem?]
    · have hd' : ¬ di = i := fun hc => hd hc.symm
      simp [frame?, hd, hd']

lemma WellFormed.allocate {h : Heap} (hw : h.WellFormed) (parent : Option Env) :
    (h.allocate parent).2.WellFormed := by
  unfold Heap.allocate
  rcases hfree : h.free with _ | ⟨i, free⟩
  · -- no slot is empty, and the new one is not
    refine ⟨by simp, fun j => ?_⟩
    have hj := hw.mem_free_iff j
    rw [hfree] at hj
    by_cases hs : j = h.slots.size
    · simp [hs]
    · simpa [hfree, Array.getElem?_push, hs] using hj
  · have hnd : i ∉ free ∧ free.Nodup := by simpa [hfree] using hw.free_nodup
    obtain ⟨slot, hslot, -⟩ := (hw.mem_free_iff i).1 (by simp [hfree])
    have hlt := (Array.getElem?_eq_some_iff.1 hslot).1
    refine ⟨hnd.2, fun j => ?_⟩
    have hj := hw.mem_free_iff j
    rw [hfree] at hj
    by_cases hi : i = j
    · subst hi
      simp [hlt, hnd.1]
    · have hi' : ¬ j = i := fun hc => hi hc.symm
      simpa [Array.getElem?_setIfInBounds, hi, hi'] using hj

/-! ## Giving frames back -/

/-- A frame that is given back is gone, and every other frame stays as it was. -/
lemma frame?_reclaim (h : Heap) (e d : Env) :
    (h.reclaim e).frame? d = if d = e then none else h.frame? d := by
  unfold reclaim
  by_cases he : h.contains e
  · have hlt := index_lt_of_contains he
    rw [if_pos he]
    by_cases hd : d = e
    · simp [hd, frame?, hlt]
    · rw [if_neg hd]
      by_cases hi : e.index = d.index
      · have hstale : h.frame? d = none :=
          frame?_eq_none_of_not_contains fun hc => hd (eq_of_index_eq hc he hi.symm)
        rw [hstale]
        simp [frame?, ← hi, hlt]
      · simp [frame?, hi]
  · rw [if_neg he]
    by_cases hd : d = e
    · rw [if_pos hd, hd]
      exact frame?_eq_none_of_not_contains he
    · rw [if_neg hd]

lemma WellFormed.reclaim {h : Heap} (hw : h.WellFormed) (e : Env) : (h.reclaim e).WellFormed := by
  unfold Heap.reclaim
  by_cases he : h.contains e
  · have hlt := index_lt_of_contains he
    obtain ⟨f, hf⟩ := contains_iff.1 he
    rw [frame?_eq_some_iff] at hf
    -- the slot had a frame, so it was not free
    have hfree : e.index ∉ h.free := by
      rw [hw.mem_free_iff]
      rintro ⟨slot, hslot, hnone⟩
      rw [hf, Option.some.injEq] at hslot
      rw [← hslot] at hnone
      exact absurd hnone (by simp)
    rw [if_pos he]
    refine ⟨List.nodup_cons.2 ⟨hfree, hw.free_nodup⟩, fun j => ?_⟩
    by_cases hj : e.index = j
    · subst hj
      simp [hlt]
    · have hj' : ¬ j = e.index := fun hc => hj hc.symm
      simp [hj, hj', hw.mem_free_iff j]
  · rw [if_neg he]
    exact hw

lemma frame?_reclaimAll (h : Heap) (es : List Env) (d : Env) :
    (h.reclaimAll es).frame? d = if d ∈ es then none else h.frame? d := by
  unfold reclaimAll
  induction es generalizing h with
  | nil => simp
  | cons e es ih =>
    rw [List.foldl_cons, ih, frame?_reclaim]
    by_cases hd : d = e
    · simp [hd]
    · simp [hd]

lemma frame?_of_reclaimAll {h : Heap} {es : List Env} {d : Env} {f : Frame}
    (hf : (h.reclaimAll es).frame? d = some f) : h.frame? d = some f := by
  rw [frame?_reclaimAll] at hf
  split at hf
  · simp at hf
  · exact hf

lemma contains_reclaimAll {h : Heap} {es : List Env} {d : Env} :
    (h.reclaimAll es).contains d ↔ h.contains d ∧ d ∉ es := by
  simp only [contains, frame?_reclaimAll]
  by_cases hd : d ∈ es
  · simp [hd]
  · simp [hd]

lemma WellFormed.reclaimAll {h : Heap} (hw : h.WellFormed) (es : List Env) :
    (h.reclaimAll es).WellFormed := by
  unfold Heap.reclaimAll
  induction es generalizing h with
  | nil => exact hw
  | cons e es ih => exact ih (hw.reclaim e)

/-! ## The handles with a frame -/

/-- The list of handles with a frame is complete. -/
lemma mem_live {h : Heap} {e : Env} : e ∈ h.live ↔ h.contains e := by
  simp only [live, List.mem_filterMap, Prod.exists, List.mk_mem_zipIdx_iff_getElem?,
    Array.getElem?_toList]
  constructor
  · rintro ⟨⟨generation, frame⟩, i, hslot, hsome⟩
    rcases frame with _ | f
    · exact absurd hsome (by simp)
    · have he : ⟨i, generation⟩ = e := by simpa using hsome
      subst he
      exact contains_of_frame? (frame?_eq_some_iff.2 hslot)
  · intro he
    obtain ⟨f, hf⟩ := contains_iff.1 he
    exact ⟨⟨e.generation, some f⟩, e.index, frame?_eq_some_iff.1 hf, by simp⟩

end Bhasha.Heap
