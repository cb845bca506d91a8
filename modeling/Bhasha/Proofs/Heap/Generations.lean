import Bhasha.Proofs.Heap.History

/-!
Generations, and how long a stale handle stays stale.

A slot counts how often it was emptied, in 32 bits, and a handle is good for one count. So a handle
whose frame was given back finds nothing, not even when its slot is in use again: the count would
first have to come round. How often a slot is emptied is counted here along the history, without a
look at what the slot itself has counted, and the two are compared. That says exactly when a handle
has a frame, and with it when the protection by generations gives out.
-/

namespace Bhasha.Heap

/-! ## How often a slot is emptied -/

/-- The handles whose frames an operation gives back, one after the other. -/
def givenBack (h : Heap) : Op → List Env
  | .allocate _ => []
  | .set _ _ _ => []
  | .collect roots => h.unreached h.live roots
  | .release candidates result => h.unreached candidates result.captured

lemma perform_collect (h : Heap) (roots : List Env) :
    h.perform (.collect roots) = h.reclaimAll (h.givenBack (.collect roots)) :=
  rfl

lemma perform_release (h : Heap) (candidates : List Env) (result : Value) :
    h.perform (.release candidates result) =
      h.reclaimAll (h.givenBack (.release candidates result)) :=
  rfl

/-- How often slot `i` is emptied while handles are given back. A handle that is stale when its turn
comes empties no slot. -/
def emptyingsBy (i : Nat) : Heap → List Env → Nat
  | _, [] => 0
  | h, e :: es => (if e.index = i ∧ h.contains e then 1 else 0) + emptyingsBy i (h.reclaim e) es

/-- How often slot `i` is emptied in a run of operations. -/
def emptyings (i : Nat) : Heap → List Op → Nat
  | _, [] => 0
  | h, op :: ops => emptyingsBy i h (h.givenBack op) + emptyings i (h.perform op) ops

lemma emptyings_append (i : Nat) (h : Heap) (ops ops' : List Op) :
    h.emptyings i (ops ++ ops') = h.emptyings i ops + (ops.foldl perform h).emptyings i ops' := by
  induction ops generalizing h with
  | nil => simp [emptyings]
  | cons op ops ih => simp [emptyings, ih, Nat.add_assoc]

lemma after_append (ops ops' : List Op) : after (ops ++ ops') = ops'.foldl perform (after ops) :=
  List.foldl_append

lemma WellFormed.foldl_perform {h : Heap} (hw : h.WellFormed) (ops : List Op) :
    (ops.foldl Heap.perform h).WellFormed := by
  induction ops generalizing h with
  | nil => exact hw
  | cons op ops ih => exact ih (hw.perform op)

/-! ## What a slot counts -/

/-- The generation of a slot. -/
def generation? (h : Heap) (i : Nat) : Option UInt32 :=
  h.slots[i]?.map Slot.generation

/-- Whether a slot has a frame. -/
def Occupied (h : Heap) (i : Nat) : Prop :=
  ∃ slot, h.slots[i]? = some slot ∧ slot.frame.isSome

lemma contains_iff_occupied {h : Heap} {e : Env} :
    h.contains e ↔ h.Occupied e.index ∧ h.generation? e.index = some e.generation := by
  unfold contains frame? Occupied generation?
  rcases h.slots[e.index]? with _ | slot
  · simp
  · by_cases hg : slot.generation = e.generation
    · simp [hg]
    · simp [hg]

lemma generation?_of_contains {h : Heap} {e : Env} (he : h.contains e) :
    h.generation? e.index = some e.generation :=
  (contains_iff_occupied.1 he).2

lemma generation?_reclaim (h : Heap) (e : Env) (i : Nat) :
    (h.reclaim e).generation? i =
      (h.generation? i).map (· + UInt32.ofNat (if e.index = i ∧ h.contains e then 1 else 0)) := by
  by_cases he : h.contains e
  · by_cases hi : e.index = i
    · subst hi
      have hlt := index_lt_of_contains he
      rw [generation?_of_contains he]
      simp [generation?, reclaim, he, hlt]
    · simp [generation?, reclaim, he, hi, Function.comp_def]
  · simp [reclaim, he]

lemma generation?_reclaimAll (h : Heap) (es : List Env) (i : Nat) :
    (h.reclaimAll es).generation? i =
      (h.generation? i).map (· + UInt32.ofNat (h.emptyingsBy i es)) := by
  induction es generalizing h with
  | nil => simp [reclaimAll, emptyingsBy]
  | cons e es ih =>
    have hstep : h.reclaimAll (e :: es) = (h.reclaim e).reclaimAll es := rfl
    rw [hstep, ih, generation?_reclaim, emptyingsBy, UInt32.ofNat_add, Option.map_map]
    congr 1
    funext g
    exact UInt32.add_assoc _ _ _

lemma generation?_set (h : Heap) (e : Env) (name : String) (v : Value) (i : Nat) :
    (h.set e name v).generation? i = h.generation? i := by
  unfold set
  rcases hf : h.frame? e with _ | f
  · rfl
  · have he := contains_of_frame? hf
    by_cases hi : e.index = i
    · subst hi
      have hlt := index_lt_of_contains he
      rw [generation?_of_contains he]
      simp [generation?, setFrame, he, hlt]
    · simp [generation?, setFrame, he, hi]

/-- A new frame changes no generation, be it in a slot that was free or in a new one. -/
lemma generation?_allocate {h : Heap} {i : Nat} {g : UInt32} (hg : h.generation? i = some g)
    (parent : Option Env) : (h.allocate parent).2.generation? i = some g := by
  obtain ⟨slot, hslot, rfl⟩ := Option.map_eq_some_iff.1 hg
  obtain ⟨hlt, hget⟩ := Array.getElem?_eq_some_iff.1 hslot
  unfold allocate
  rcases h.free with _ | ⟨j, free⟩
  · simp [generation?, Array.getElem?_push, hlt.ne, hslot]
  · by_cases hj : j = i
    · subst hj
      simp [generation?, Array.getD_eq_getD_getElem?, hlt, hget]
    · simp [generation?, hj, hslot]

/-- A new handle has the generation of its slot, if the slot is not new itself. -/
lemma generation?_allocate_fst {h : Heap} {parent : Option Env} {g : UInt32}
    (hg : h.generation? (h.allocate parent).1.index = some g) :
    (h.allocate parent).1.generation = g := by
  obtain ⟨slot, hslot, rfl⟩ := Option.map_eq_some_iff.1 hg
  unfold allocate at hslot ⊢
  rcases hfree : h.free with _ | ⟨j, free⟩
  · simp [hfree] at hslot
  · rw [hfree] at hslot
    simp [Array.getD_eq_getD_getElem?, hslot]

/-- In one operation, a slot counts how often it is emptied. -/
lemma generation?_perform {h : Heap} {i : Nat} {g : UInt32} (hg : h.generation? i = some g)
    (op : Op) : (h.perform op).generation? i =
      some (g + UInt32.ofNat (h.emptyingsBy i (h.givenBack op))) := by
  cases op with
  | allocate parent =>
    rw [perform, generation?_allocate hg parent]
    simp [givenBack, emptyingsBy]
  | set e name v =>
    rw [perform, generation?_set, hg]
    simp [givenBack, emptyingsBy]
  | collect roots => rw [perform_collect, generation?_reclaimAll, hg, Option.map_some]
  | release candidates result =>
    rw [perform_release, generation?_reclaimAll, hg, Option.map_some]

/-- In a run, a slot counts how often it is emptied. -/
lemma generation?_foldl_perform {h : Heap} {i : Nat} {g : UInt32} (hg : h.generation? i = some g)
    (ops : List Op) :
    (ops.foldl perform h).generation? i = some (g + UInt32.ofNat (h.emptyings i ops)) := by
  induction ops generalizing h g with
  | nil => simpa [emptyings] using hg
  | cons op ops ih =>
    rw [List.foldl_cons, ih (generation?_perform hg op), emptyings, UInt32.ofNat_add,
      UInt32.add_assoc]

/-- The count of a slot comes round after 2 ^ 32 emptyings. -/
lemma add_ofNat_eq_self_iff (g : UInt32) (n : Nat) : g + UInt32.ofNat n = g ↔ 2 ^ 32 ∣ n := by
  rw [UInt32.add_eq_left, ← UInt32.toNat_inj, UInt32.toNat_ofNat', UInt32.toNat_zero,
    Nat.dvd_iff_mod_eq_zero]

/-! ## Frames that stay -/

lemma contains_reclaimAll_of_emptyingsBy {h : Heap} {e : Env} {es : List Env} (he : h.contains e)
    (hn : h.emptyingsBy e.index es = 0) : (h.reclaimAll es).contains e := by
  induction es generalizing h with
  | nil => exact he
  | cons d es ih =>
    rw [emptyingsBy, Nat.add_eq_zero_iff] at hn
    have hd : e ≠ d := by
      rintro rfl
      simp [he] at hn
    refine ih ?_ hn.2
    rwa [contains, frame?_reclaim, if_neg hd]

lemma WellFormed.contains_perform {h : Heap} (hw : h.WellFormed) {e : Env} {op : Op}
    (he : h.contains e) (hn : h.emptyingsBy e.index (h.givenBack op) = 0) :
    (h.perform op).contains e := by
  cases op with
  | allocate parent =>
    have hne : e ≠ (h.allocate parent).1 := by
      rintro rfl
      exact not_contains_of_frame? (frame?_allocate_fst hw parent) he
    rwa [Heap.perform, contains, frame?_allocate hw, if_neg hne]
  | set d name v => rwa [Heap.perform, contains_set]
  | collect roots =>
    rw [perform_collect]
    exact contains_reclaimAll_of_emptyingsBy he hn
  | release candidates result =>
    rw [perform_release]
    exact contains_reclaimAll_of_emptyingsBy he hn

/-- A frame stays as long as its slot is not emptied. -/
lemma WellFormed.contains_foldl_perform {h : Heap} (hw : h.WellFormed) {e : Env} {ops : List Op}
    (he : h.contains e) (hn : h.emptyings e.index ops = 0) :
    (ops.foldl Heap.perform h).contains e := by
  induction ops generalizing h with
  | nil => exact he
  | cons op ops ih =>
    rw [emptyings, Nat.add_eq_zero_iff] at hn
    exact ih (hw.perform op) (hw.contains_perform he hn.1) hn.2

/-! ## Handles in the course of a run -/

variable {h : Heap} {e : Env} {ops : List Op}

/-- A handle that had a frame has one again, or still, exactly if its slot is in use and its count
has come round. -/
lemma contains_foldl_perform_iff (he : h.contains e) :
    (ops.foldl perform h).contains e ↔
      (ops.foldl perform h).Occupied e.index ∧ 2 ^ 32 ∣ h.emptyings e.index ops := by
  rw [contains_iff_occupied, generation?_foldl_perform (generation?_of_contains he),
    Option.some.injEq, add_ofNat_eq_self_iff]

/-- A handle that has lost its frame has none before the count of its slot comes round. -/
lemma WellFormed.not_contains_foldl_perform (hw : h.WellFormed) (he : h.contains e)
    {before : List Op} (hbefore : before <+: ops)
    (hlost : ¬ (before.foldl Heap.perform h).contains e) (hn : h.emptyings e.index ops < 2 ^ 32) :
    ¬ (ops.foldl Heap.perform h).contains e := by
  intro hlive
  have hzero : h.emptyings e.index ops = 0 :=
    Nat.eq_zero_of_dvd_of_lt ((contains_foldl_perform_iff he).1 hlive).2 hn
  obtain ⟨rest, rfl⟩ := hbefore
  rw [emptyings_append] at hzero
  exact hlost (hw.contains_foldl_perform he (by omega))

/-- A handle is not returned again before the count of its slot comes round. -/
lemma WellFormed.allocate_fst_ne (hw : h.WellFormed) (he : h.contains e)
    (hn : h.emptyings e.index ops < 2 ^ 32) (parent : Option Env) :
    ((ops.foldl Heap.perform h).allocate parent).1 ≠ e := by
  rintro rfl
  have hgen := generation?_foldl_perform (generation?_of_contains he) ops
  have hdvd := (add_ofNat_eq_self_iff _ _).1 (generation?_allocate_fst hgen).symm
  -- the slot was not emptied at all, so the handle still has its frame
  have hlive := hw.contains_foldl_perform he (Nat.eq_zero_of_dvd_of_lt hdvd hn)
  exact not_contains_of_frame? (frame?_allocate_fst (hw.foldl_perform ops) parent) hlive

/-! ## Handles that were returned -/

/-- The handle that an operation returns has a frame. -/
lemma contains_returned (earlier : List Op) (parent : Option Env) :
    (after (earlier ++ [.allocate parent])).contains ((after earlier).allocate parent).1 := by
  rw [after_concat]
  refine contains_of_frame? (f := { parent }) ?_
  rw [perform, frame?_allocate (wellFormed_after earlier), if_pos rfl]

/-- What a handle is good for, at any time after it was returned. It has a frame exactly if its slot
is in use and was emptied a multiple of 2 ^ 32 times since. So if it was without a frame at some
time since, and its slot was emptied fewer than 2 ^ 32 times, it has none: nothing is found through
it, there is nothing around it, a binding through it changes nothing, and it is not returned for
another frame. -/
theorem stale_until_count_comes_round (earlier later : List Op) (parent : Option Env) :
    let e := ((after earlier).allocate parent).1
    let made := earlier ++ [.allocate parent]
    let n := (after made).emptyings e.index later
    let now := after (made ++ later)
    (now.contains e ↔ now.Occupied e.index ∧ 2 ^ 32 ∣ n) ∧
    ∀ middle, middle <+: later → ¬ (after (made ++ middle)).contains e → n < 2 ^ 32 →
      ¬ now.contains e ∧ (∀ name, now.get? e name = none) ∧ now.parent? e = none ∧
      (∀ name v, now.set e name v = now) ∧ ∀ parent', (now.allocate parent').1 ≠ e := by
  intro e made n now
  have hw := wellFormed_after made
  have he : (after made).contains e := contains_returned earlier parent
  have hnow : now = later.foldl perform (after made) := after_append made later
  refine ⟨hnow ▸ contains_foldl_perform_iff he, fun middle hmiddle hlost hn => ?_⟩
  have hstale : ¬ now.contains e := by
    rw [after_append] at hlost
    exact hnow ▸ hw.not_contains_foldl_perform he hmiddle hlost hn
  have hnone := frame?_eq_none_of_not_contains hstale
  exact ⟨hstale, fun name => getWithin_of_frame?_eq_none hnone _ name, by simp [parent?, hnone],
    fun name v => by simp [set, hnone], hnow ▸ hw.allocate_fst_ne he hn⟩

/-- A frame inside an outermost one is collected, and its slot is used again. -/
theorem stale_until_count_comes_round_of_reused_slot :
    let made : List Op := [.allocate none, .allocate (some ⟨0, 0⟩)]
    let middle : List Op := [.collect [⟨0, 0⟩]]
    let later : List Op := [.collect [⟨0, 0⟩], .allocate none]
    let now := after (made ++ later)
    ((after [.allocate none]).allocate (some ⟨0, 0⟩)).1 = ⟨1, 0⟩ ∧
    middle <+: later ∧ ¬ (after (made ++ middle)).contains ⟨1, 0⟩ ∧
    (after made).emptyings 1 later = 1 ∧ now.Occupied 1 ∧
    ¬ now.contains ⟨1, 0⟩ ∧ (∀ name, now.get? ⟨1, 0⟩ name = none) ∧ now.parent? ⟨1, 0⟩ = none ∧
    (∀ name v, now.set ⟨1, 0⟩ name v = now) ∧ ∀ parent, (now.allocate parent).1 ≠ ⟨1, 0⟩ := by
  intro made middle later now
  have hmiddle : middle <+: later := ⟨[.allocate none], rfl⟩
  have hlost : ¬ (after (made ++ middle)).contains ⟨1, 0⟩ := by decide
  have hn : (after made).emptyings 1 later = 1 := by decide
  refine ⟨rfl, hmiddle, hlost, hn, ⟨_, rfl, rfl⟩, ?_⟩
  exact (stale_until_count_comes_round [.allocate none] later (some ⟨0, 0⟩)).2 middle hmiddle hlost
    (hn.trans_lt (by decide))

end Bhasha.Heap
