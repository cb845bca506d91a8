import Bhasha.Proofs.Heap.Exactness

/-!
Making and collecting frames with checks.

`allocate` takes the next free slot and does not ask whether there is such a slot. A collection
keeps a mark for each slot, and the mark of a handle is read and set without asking whether there is
one. Here both are written down with the questions, so that they have no outcome where an answer is
no. On a heap whose list of free slots is right all answers are yes, and the outcome is that of the
operation without questions.

The marks are also another way to carry out the search of a collection. They are of slots, not of
handles, and nothing bounds the number of steps: a search that never ended would have no outcome
either.
-/

namespace Bhasha.Heap

variable {h : Heap}

/-! ## New frames -/

/-- A new frame; no outcome if the slot to put it into does not exist. -/
def allocate? (h : Heap) (parent : Option Env) : Option (Env × Heap) :=
  match h.free with
  | index :: free => do
    let slot ← h.slots[index]?
    let filled := { slot with frame := some { parent } }
    return (⟨index, slot.generation⟩, { slots := h.slots.setIfInBounds index filled, free })
  | [] => some (⟨h.slots.size, 0⟩, { h with slots := h.slots.push { frame := some { parent } } })

/-- A free slot exists. -/
lemma WellFormed.allocate?_eq (hw : h.WellFormed) (parent : Option Env) :
    h.allocate? parent = some (h.allocate parent) := by
  unfold allocate? Heap.allocate
  rcases hfree : h.free with _ | ⟨index, free⟩
  · rfl
  · obtain ⟨slot, hslot, -⟩ := (hw.mem_free_iff index).1 (by simp [hfree])
    have hdefault : h.slots.getD index { frame := none } = slot := by
      rw [Array.getD_eq_getD_getElem?, hslot, Option.getD_some]
    simp only [hslot, hdefault]
    rfl

/-! ## Marks -/

/-- A mark that is set is one less to set. -/
lemma count_setIfInBounds_lt {marks : Array Bool} {i : Nat} (h : marks[i]? = some false) :
    (marks.setIfInBounds i true).count false < marks.count false := by
  obtain ⟨hi, hmark⟩ := Array.getElem?_eq_some_iff.1 h
  have hpos : 0 < marks.count false := Array.count_pos_iff.2 (hmark ▸ Array.getElem_mem hi)
  rw [Array.setIfInBounds_def, dif_pos hi, Array.count_set, hmark]
  simpa using hpos

/-- The marks of all slots whose frames are reached from pending handles. A handle without a frame
is passed over, and so is one whose slot has a mark; otherwise the slot gets one, and what its frame
refers to is pending. There is no outcome if the mark of a slot does not exist. -/
def markFrom? (h : Heap) (marks : Array Bool) : List Env → Option (Array Bool)
  | [] => some marks
  | env :: pending =>
    match h.frame? env with
    | none => markFrom? h marks pending
    | some frame =>
      match _ : marks[env.index]? with
      | none => none
      | some true => markFrom? h marks pending
      | some false =>
        markFrom? h (marks.setIfInBounds env.index true) (frame.references ++ pending)
termination_by pending => (marks.count false, pending.length)
decreasing_by
  · exact .right _ (Nat.lt_succ_self _)
  · exact .right _ (Nat.lt_succ_self _)
  · exact .left _ _ (count_setIfInBounds_lt ‹_›)

/-- What a handle with a frame and a mark, set or not, leads to. -/
lemma markFrom?_cons {h : Heap} {marks : Array Bool} {env : Env} {frame : Frame} {marked : Bool}
    (hframe : h.frame? env = some frame) (hmarked : marks[env.index]? = some marked)
    (pending : List Env) :
    h.markFrom? marks (env :: pending) =
      if marked then h.markFrom? marks pending
      else h.markFrom? (marks.setIfInBounds env.index true) (frame.references ++ pending) := by
  rw [markFrom?, hframe]
  dsimp only
  split
  · next hnone => cases hnone.symm.trans hmarked
  · next htrue =>
    obtain rfl := Option.some.inj (htrue.symm.trans hmarked)
    rw [if_pos rfl]
  · next hfalse =>
    obtain rfl := Option.some.inj (hfalse.symm.trans hmarked)
    rw [if_neg Bool.false_ne_true]

/-- The handles whose slots have no mark. There is no outcome if the mark of a slot does not
exist. -/
def unmarked? (marks : Array Bool) : List Env → Option (List Env)
  | [] => some []
  | env :: envs => do
    let marked ← marks[env.index]?
    let rest ← unmarked? marks envs
    return if marked then rest else env :: rest

/-- Give back every frame that cannot be reached from the roots. At first no slot has a mark. -/
def collect? (h : Heap) (roots : List Env) : Option (Nat × Heap) := do
  let marks ← h.markFrom? (.replicate h.slots.size false) roots
  let garbage ← unmarked? marks h.live
  return (garbage.length, h.reclaimAll garbage)

/-- The marks are those of the slots, and the handles that are left are those without a mark. -/
structure MarksLeave (h : Heap) (marks : Array Bool) (left : List Env) : Prop where
  size : marks.size = h.slots.size
  left : left = h.live.filter fun e => marks[e.index]? == some false

namespace MarksLeave

variable {marks : Array Bool} {left : List Env} {e : Env}

lemma start : h.MarksLeave (.replicate h.slots.size false) h.live where
  size := Array.size_replicate
  left := by
    refine (List.filter_eq_self.2 fun e he => ?_).symm
    have hlt := index_lt_of_contains (mem_live.1 he)
    simp [hlt]

/-- Every slot with a frame has a place for its mark. -/
lemma exists_mark (hm : h.MarksLeave marks left) (he : h.contains e) :
    ∃ marked, marks[e.index]? = some marked :=
  ⟨_, Array.getElem?_eq_getElem (by rw [hm.size]; exact index_lt_of_contains he)⟩

lemma mem_iff (hm : h.MarksLeave marks left) :
    e ∈ left ↔ h.contains e ∧ marks[e.index]? = some false := by
  rw [hm.left, List.mem_filter, mem_live]
  simp

/-- One more mark takes one handle out, because no two handles with frames share a slot. -/
lemma mark (hm : h.MarksLeave marks left) (he : e ∈ left) :
    h.MarksLeave (marks.setIfInBounds e.index true) (left.filter (· != e)) where
  size := Array.size_setIfInBounds.trans hm.size
  left := by
    have hlive := (hm.mem_iff.1 he).1
    rw [hm.left, List.filter_filter]
    refine List.filter_congr fun d hd => Bool.eq_iff_iff.2 ?_
    by_cases hindex : d.index = e.index
    · obtain rfl := eq_of_index_eq (mem_live.1 hd) hlive hindex
      have hlt : d.index < marks.size := by
        rw [hm.size]
        exact index_lt_of_contains hlive
      simp [hlt]
    · have hne : d ≠ e := fun heq => hindex (congrArg Env.index heq)
      simp [Ne.symm hindex, hne]

lemma unmarked?_eq (hm : h.MarksLeave marks left) : unmarked? marks h.live = some left := by
  have hall : ∀ es : List Env, (∀ e ∈ es, h.contains e) →
      unmarked? marks es = some (es.filter fun e => marks[e.index]? == some false) := by
    intro es hes
    induction es with
    | nil => rfl
    | cons e es ih =>
      obtain ⟨he, hes⟩ := List.forall_mem_cons.1 hes
      obtain ⟨marked, hmarked⟩ := hm.exists_mark he
      rw [unmarked?, hmarked, ih hes]
      cases marked <;> simp [hmarked]
  rw [hall h.live fun e he => mem_live.1 he, hm.left]

/-- The marks carry out the search. -/
lemma markFrom?_eq {pending rest : List Env} (hs : h.Searches left pending rest)
    (hm : h.MarksLeave marks left) :
    ∃ marks', h.markFrom? marks pending = some marks' ∧ h.MarksLeave marks' rest := by
  induction hs generalizing marks with
  | done => exact ⟨marks, by rw [markFrom?], hm⟩
  | @pass left pending rest e he _ ih =>
    obtain ⟨marks', hfrom, hm'⟩ := ih hm
    refine ⟨marks', ?_, hm'⟩
    rcases hf : h.frame? e with _ | frame
    · rw [markFrom?, hf]
      exact hfrom
    · -- the handle has a frame and is not left, so its slot has a mark
      obtain ⟨marked, hmarked⟩ := hm.exists_mark (contains_of_frame? hf)
      cases marked with
      | false => exact absurd (hm.mem_iff.2 ⟨contains_of_frame? hf, hmarked⟩) he
      | true => rw [markFrom?_cons hf hmarked, if_pos rfl, hfrom]
  | @take left pending rest e he _ ih =>
    obtain ⟨hlive, hmarked⟩ := hm.mem_iff.1 he
    obtain ⟨frame, hf⟩ := contains_iff.1 hlive
    obtain ⟨marks', hfrom, hm'⟩ := ih (hm.mark he)
    refine ⟨marks', ?_, hm'⟩
    have hreferences : h.references e = frame.references := by rw [references, hf]
    rw [hreferences] at hfrom
    rw [markFrom?_cons hf hmarked, if_neg Bool.false_ne_true, hfrom]

end MarksLeave

/-- A collection by marks asks for no mark that does not exist, it ends, and it gives back what the
collection gives back. The roots can be any handles, stale or repeated. -/
lemma collect?_eq (h : Heap) (roots : List Env) : h.collect? roots = some (h.collect roots) := by
  have hsearch := searches_unreachedWithin h h.live.length h.live roots le_rfl
  obtain ⟨marks, hmarks, hleave⟩ := MarksLeave.markFrom?_eq hsearch .start
  rw [collect?, hmarks]
  show (do let garbage ← unmarked? marks h.live; _) = _
  rw [hleave.unmarked?_eq]
  rfl

end Bhasha.Heap
