import Bhasha.Proofs.Heap.Generations

/-!
The way outward from an environment.

A name is looked up from frame to frame outward. That comes to an end because a frame is made
inside one that was there before: the time at which frames were made goes down on the way. The heap
does not store that time, and neither slots nor generations follow it, since slots are used again.
It is the place of a handle among all handles that were returned, which is well defined as long as
no handle is returned twice, so as long as the count of no slot comes round. Then a parent handle
that has gone stale stays so, even if the frame inside is put into the very same slot.
-/

namespace Bhasha.Heap

/-! ## Chains of environments -/

/-- The environment that lies a number of steps outward from that of a handle. -/
def outward? (h : Heap) (e : Env) : Nat → Option Env
  | 0 => some e
  | k + 1 => (h.outward? e k).bind h.parent?

/-- On the way outward no environment is met twice. -/
def Acyclic (h : Heap) : Prop :=
  ∀ e i j d, i < j → h.outward? e i = some d → h.outward? e j ≠ some d

lemma contains_of_parent? {h : Heap} {d p : Env} (hp : h.parent? d = some p) : h.contains d := by
  obtain ⟨f, hf, -⟩ := Option.bind_eq_some_iff.1 hp
  exact contains_of_frame? hf

lemma outward?_succ {h : Heap} {e d p : Env} {k : Nat} (hd : h.outward? e k = some d)
    (hp : h.parent? d = some p) : h.outward? e (k + 1) = some p := by
  rw [outward?, hd, Option.bind_some, hp]

/-- On the way to an environment with a frame there are frames all along. -/
lemma exists_outward?_of_le {h : Heap} {e d : Env} {i k : Nat} (hd : h.outward? e k = some d)
    (hlive : h.contains d) (hi : i ≤ k) : ∃ c, h.outward? e i = some c ∧ h.contains c := by
  induction k generalizing d with
  | zero =>
    obtain rfl : i = 0 := by omega
    exact ⟨d, hd, hlive⟩
  | succ k ih =>
    rcases Nat.lt_or_ge k i with hk | hk
    · obtain rfl : i = k + 1 := by omega
      exact ⟨d, hd, hlive⟩
    · obtain ⟨c, hc, hp⟩ := Option.bind_eq_some_iff.1 hd
      exact ih hc (contains_of_parent? hp) hk

/-- If something goes down from each environment to the one around it, no environment is met
twice. -/
lemma acyclic_of_rank {h : Heap} (rank : Env → Nat)
    (hrank : ∀ d p, h.parent? d = some p → rank p < rank d) : h.Acyclic := by
  have hdown : ∀ e i k d c, h.outward? e i = some d → h.outward? e (i + k + 1) = some c →
      rank c < rank d := by
    intro e i k
    induction k with
    | zero =>
      intro d c hd hc
      rw [Nat.add_zero, outward?, hd, Option.bind_some] at hc
      exact hrank d c hc
    | succ k ih =>
      intro d c hd hc
      obtain ⟨b, hb, hp⟩ := Option.bind_eq_some_iff.1 hc
      exact (hrank b c hp).trans (ih d b hd hb)
  intro e i j d hij hd hd'
  obtain ⟨k, rfl⟩ := Nat.exists_eq_add_of_lt hij
  exact absurd (hdown e i k d d hd hd') (lt_irrefl _)

/-- There are no more frames on the way outward than frames. -/
lemma Acyclic.lt_size {h : Heap} (ha : h.Acyclic) (hw : h.WellFormed) {e d : Env} {k : Nat}
    (hd : h.outward? e k = some d) (hlive : h.contains d) : k < h.size := by
  let met : Nat → Env := fun i => (h.outward? e i).getD d
  have hmet : ∀ i ≤ k, h.outward? e i = some (met i) ∧ h.contains (met i) := by
    intro i hi
    obtain ⟨c, hc, hcontains⟩ := exists_outward?_of_le hd hlive hi
    simp [met, hc, hcontains]
  have hinj : Set.InjOn met (Finset.range (k + 1)) := by
    intro i hi j hj heq
    rw [Finset.mem_coe, Finset.mem_range] at hi hj
    have hsame := (hmet j (by omega)).1
    rw [← heq] at hsame
    by_contra hne
    rcases Nat.lt_or_gt_of_ne hne with hlt | hlt
    · exact ha e i j _ hlt (hmet i (by omega)).1 hsame
    · exact ha e j i _ hlt hsame (hmet i (by omega)).1
  have hsub : met '' (Finset.range (k + 1)) ⊆ h.handles := by
    rintro c ⟨i, hi, rfl⟩
    rw [Finset.mem_coe, Finset.mem_range] at hi
    exact (hmet i (by omega)).2
  have hcard := Set.encard_le_encard hsub
  rw [hinj.encard_image, Set.encard_coe_eq_coe_finsetCard, Finset.card_range, hw.encard_handles,
    Nat.cast_le] at hcard
  omega

/-! ## Looking a name up -/

/-- The search for a name from an environment outward, without a bound on its steps: it looks at
the frames of some handles, one after the other, and ends with a value or without one. -/
inductive Lookup (h : Heap) (name : String) : Env → List Env → Option Value → Prop
  | stale {e : Env} : h.frame? e = none → Lookup h name e [] none
  | bound {e : Env} {f : Frame} {v : Value} :
      h.frame? e = some f → f.get? name = some v → Lookup h name e [e] (some v)
  | outermost {e : Env} {f : Frame} :
      h.frame? e = some f → f.get? name = none → f.parent = none → Lookup h name e [e] none
  | outward {e p : Env} {f : Frame} {met : List Env} {result : Option Value} :
      h.frame? e = some f → f.get? name = none → f.parent = some p →
      Lookup h name p met result → Lookup h name e (e :: met) result

/-- A search with a bound finds what the one without finds, if the bound lets it look at as many
frames. -/
lemma Lookup.getWithin_eq {h : Heap} {name : String} {e : Env} {met : List Env}
    {result : Option Value} (hl : h.Lookup name e met result) {n : Nat} (hn : met.length ≤ n) :
    h.getWithin n e name = result := by
  induction hl generalizing n with
  | stale hf => exact getWithin_of_frame?_eq_none hf n name
  | bound hf hv =>
    obtain ⟨n, rfl⟩ := Nat.exists_eq_add_of_le' hn
    simp [getWithin, hf, hv]
  | outermost hf hv hp =>
    obtain ⟨n, rfl⟩ := Nat.exists_eq_add_of_le' hn
    simp [getWithin, hf, hv, hp]
  | outward hf hv hp _ ih =>
    obtain ⟨n, rfl⟩ : ∃ m, n = m + 1 := ⟨n - 1, by rw [List.length_cons] at hn; omega⟩
    simp only [getWithin, hf, hv, hp]
    exact ih (by simpa using hn)

/-- Where no environment is met twice, every search ends, after no more frames than there are. -/
lemma Acyclic.exists_lookup {h : Heap} (ha : h.Acyclic) (hw : h.WellFormed) (e : Env)
    (name : String) : ∃ met result, h.Lookup name e met result ∧ met.length ≤ h.size := by
  -- what is left to look at, counted down from where the search has come to
  have hrest : ∀ n k d, h.outward? e k = some d → k + n = h.size →
      ∃ met result, h.Lookup name d met result ∧ met.length ≤ n := by
    intro n
    induction n with
    | zero =>
      intro k d hd hk
      refine ⟨[], none, .stale (frame?_eq_none_of_not_contains fun hlive => ?_), le_rfl⟩
      have hlt := ha.lt_size hw hd hlive
      omega
    | succ n ih =>
      intro k d hd hk
      rcases hf : h.frame? d with _ | f
      · exact ⟨[], none, .stale hf, Nat.zero_le _⟩
      rcases hv : f.get? name with _ | v
      · rcases hp : f.parent with _ | p
        · exact ⟨[d], none, .outermost hf hv hp, by simp⟩
        · obtain ⟨met, result, hl, hlen⟩ :=
            ih (k + 1) p (outward?_succ hd (by simp [parent?, hf, hp])) (by omega)
          exact ⟨d :: met, result, .outward hf hv hp hl, by simpa using hlen⟩
      · exact ⟨[d], some v, .bound hf hv, by simp⟩
  exact hrest h.size 0 e rfl (Nat.zero_add _)

/-! ## The handles that a history returns -/

/-- The handle that an operation returns, if it makes a frame. -/
def handle? (h : Heap) : Op → Option Env
  | .allocate parent => some (h.allocate parent).1
  | .set _ _ _ => none
  | .collect _ => none
  | .release _ _ => none

/-- The handles that the operations of a run return, in order. -/
def returned : Heap → List Op → List Env
  | _, [] => []
  | h, op :: ops => (h.handle? op).toList ++ returned (h.perform op) ops

/-- Every frame of a history was made inside an environment whose handle had been returned before,
be it stale by then or not, or else inside none. -/
def ParentsReturned (ops : List Op) : Prop :=
  ∀ earlier parent, earlier ++ [.allocate (some parent)] <+: ops → parent ∈ empty.returned earlier

lemma parentsReturned_concat {ops : List Op} {op : Op} :
    ParentsReturned (ops ++ [op]) ↔
      ParentsReturned ops ∧ ∀ p, op = .allocate (some p) → p ∈ empty.returned ops := by
  constructor
  · intro hparents
    refine ⟨fun earlier p hp => hparents earlier p (hp.trans (List.prefix_append ops [op])), ?_⟩
    rintro p rfl
    exact hparents ops p List.prefix_rfl
  · rintro ⟨hparents, hop⟩ earlier p hp
    rcases List.prefix_concat_iff.1 hp with heq | hp
    · obtain ⟨rfl, hlast⟩ := List.append_inj' heq rfl
      exact hop p (List.singleton_inj.1 hlast).symm
    · exact hparents earlier p hp

lemma returned_append (h : Heap) (ops ops' : List Op) :
    h.returned (ops ++ ops') = h.returned ops ++ (ops.foldl perform h).returned ops' := by
  induction ops generalizing h with
  | nil => rfl
  | cons op ops ih => simp [returned, ih]

lemma returned_concat (ops : List Op) (op : Op) :
    empty.returned (ops ++ [op]) = empty.returned ops ++ ((after ops).handle? op).toList := by
  simp [returned_append, returned, after]

lemma exists_allocate_of_mem_returned {h : Heap} {e : Env} {ops : List Op}
    (he : e ∈ h.returned ops) : ∃ earlier parent later, ops = earlier ++ .allocate parent :: later ∧
      e = ((earlier.foldl perform h).allocate parent).1 := by
  induction ops generalizing h with
  | nil => simp [returned] at he
  | cons op ops ih =>
    rw [returned, List.mem_append] at he
    rcases he with he | he
    · cases op with
      | allocate parent => exact ⟨[], parent, ops, rfl, by simpa [handle?] using he⟩
      | set | collect | release => simp [handle?] at he
    · obtain ⟨earlier, parent, later, rfl, rfl⟩ := ih he
      exact ⟨op :: earlier, parent, later, rfl, rfl⟩

/-- As long as the count of no slot has come round, no handle is returned twice. -/
lemma handle?_not_mem_returned {ops : List Op} (hcount : ∀ i, empty.emptyings i ops < 2 ^ 32)
    {op : Op} {e : Env} (he : (after ops).handle? op = some e) : e ∉ empty.returned ops := by
  intro hmem
  obtain ⟨earlier, parent, later, hops, rfl⟩ := exists_allocate_of_mem_returned hmem
  obtain rfl : ops = earlier ++ [.allocate parent] ++ later := by simp [hops]
  have hlive := contains_returned earlier parent
  have hn := hcount ((after earlier).allocate parent).1.index
  rw [emptyings_append] at hn
  cases op with
  | allocate parent' =>
    refine (wellFormed_after _).allocate_fst_ne hlive (lt_of_le_of_lt (Nat.le_add_left _ _) hn)
      parent' ?_
    rw [← after_append]
    exact Option.some.inj he
  | set | collect | release => simp [handle?] at he

/-! ## Where frames come from -/

/-- A frame was there before an operation, inside the same environment, or the operation has made
it. -/
lemma WellFormed.frame?_of_perform {h : Heap} (hw : h.WellFormed) {op : Op} {d : Env} {f : Frame}
    (hf : (h.perform op).frame? d = some f) :
    (∃ g, h.frame? d = some g ∧ g.parent = f.parent) ∨
      op = .allocate f.parent ∧ h.handle? op = some d := by
  cases op with
  | allocate parent =>
    rw [Heap.perform, frame?_allocate hw] at hf
    by_cases hnew : d = (h.allocate parent).1
    · rw [if_pos hnew, Option.some.injEq] at hf
      exact Or.inr ⟨by rw [← hf], by rw [handle?, hnew]⟩
    · rw [if_neg hnew] at hf
      exact Or.inl ⟨f, hf, rfl⟩
  | set e name v =>
    rw [Heap.perform, frame?_set] at hf
    by_cases hd : d = e
    · rw [if_pos hd] at hf
      obtain ⟨g, hg, rfl⟩ := Option.map_eq_some_iff.1 hf
      exact Or.inl ⟨g, by rw [hd, hg], rfl⟩
    · rw [if_neg hd] at hf
      exact Or.inl ⟨f, hf, rfl⟩
  | collect roots => exact Or.inl ⟨f, frame?_of_reclaimAll hf, rfl⟩
  | release candidates result => exact Or.inl ⟨f, frame?_of_reclaimAll hf, rfl⟩

/-- The handle of every frame was returned. -/
lemma mem_returned_of_contains {ops : List Op} {e : Env} (he : (after ops).contains e) :
    e ∈ empty.returned ops := by
  induction ops using List.reverseRecOn with
  | nil => exact absurd he (by simp [after, contains, frame?, empty])
  | append_singleton ops op ih =>
    rw [after_concat] at he
    rw [returned_concat, List.mem_append]
    obtain ⟨f, hf⟩ := contains_iff.1 he
    rcases (wellFormed_after ops).frame?_of_perform hf with ⟨g, hg, -⟩ | ⟨-, hnew⟩
    · exact Or.inl (ih (contains_of_frame? hg))
    · exact Or.inr (by simp [hnew])

/-- The handle of a frame was returned after that of the environment around it. -/
lemma idxOf_returned_lt {ops : List Op} (hparents : ParentsReturned ops)
    (hcount : ∀ i, empty.emptyings i ops < 2 ^ 32) {d p : Env}
    (hp : (after ops).parent? d = some p) :
    (empty.returned ops).idxOf p < (empty.returned ops).idxOf d := by
  induction ops using List.reverseRecOn with
  | nil => exact absurd hp (by simp [after, parent?, frame?, empty])
  | append_singleton ops op ih =>
    have hcount' : ∀ i, empty.emptyings i ops < 2 ^ 32 := fun i => by
      have htotal := hcount i
      rw [emptyings_append] at htotal
      omega
    obtain ⟨hparents', hparent⟩ := parentsReturned_concat.1 hparents
    rw [after_concat] at hp
    rw [returned_concat]
    obtain ⟨f, hf, hfp⟩ := Option.bind_eq_some_iff.1 hp
    rcases (wellFormed_after ops).frame?_of_perform hf with ⟨g, hg, hgp⟩ | ⟨hop, hnew⟩
    · have hlt := ih hparents' hcount' (by simp [parent?, hg, hgp, hfp])
      have hd := mem_returned_of_contains (contains_of_frame? hg)
      have hmem : p ∈ empty.returned ops :=
        List.idxOf_lt_length_iff.1 (hlt.trans (List.idxOf_lt_length_iff.2 hd))
      rwa [List.idxOf_append_of_mem hmem, List.idxOf_append_of_mem hd]
    · -- the new handle stands behind all others
      have hmem : p ∈ empty.returned ops := hparent p (by rw [hop, hfp])
      have hfresh : d ∉ empty.returned ops := handle?_not_mem_returned hcount' hnew
      rw [List.idxOf_append_of_mem hmem, List.idxOf_append_of_notMem hfresh]
      exact (List.idxOf_lt_length_iff.2 hmem).trans_le (Nat.le_add_right _ _)

/-- Every search for a name ends. If the frames of a history were made inside environments whose
handles had been returned before, stale or not, and no slot was emptied 2 ^ 32 times, then on the
way outward from any handle no environment is met twice. So the search for any name looks at no
more frames than there are, and what it ends with is the value of the name. -/
theorem lookup_ends (ops : List Op) (hparents : ParentsReturned ops)
    (hcount : ∀ i, empty.emptyings i ops < 2 ^ 32) :
    (after ops).Acyclic ∧
    ∀ e name, ∃ met, (after ops).Lookup name e met ((after ops).get? e name) ∧
      met.length ≤ (after ops).size := by
  have ha : (after ops).Acyclic :=
    acyclic_of_rank (empty.returned ops).idxOf fun _ _ => idxOf_returned_lt hparents hcount
  refine ⟨ha, fun e name => ?_⟩
  obtain ⟨met, result, hl, hlen⟩ := ha.exists_lookup (wellFormed_after ops) e name
  have hbound : met.length ≤ (after ops).slots.size := hlen.trans (Nat.sub_le _ _)
  refine ⟨met, ?_, hlen⟩
  rwa [get?, hl.getWithin_eq hbound]

/-- A frame is made inside one that is gone, and in the very slot of that one. -/
theorem lookup_ends_of_stale_parent :
    let ops : List Op := [.allocate none, .allocate (some ⟨0, 0⟩), .release [⟨1, 0⟩] .null,
      .allocate (some ⟨1, 0⟩)]
    ParentsReturned ops ∧ (∀ i, empty.emptyings i ops < 2 ^ 32) ∧
    (after ops).contains ⟨1, 1⟩ ∧ (after ops).parent? ⟨1, 1⟩ = some ⟨1, 0⟩ ∧
    (after ops).Acyclic ∧
    ∀ e name, ∃ met, (after ops).Lookup name e met ((after ops).get? e name) ∧
      met.length ≤ (after ops).size := by
  intro ops
  have hparents : ParentsReturned ops := by
    intro earlier parent hp
    -- only the second frame and the last are made inside another
    rcases earlier with _ | ⟨_, _ | ⟨_, _ | ⟨_, _ | ⟨_, rest⟩⟩⟩⟩ <;> simp [ops] at hp
    · obtain ⟨rfl, rfl⟩ := hp
      decide
    · obtain ⟨rfl, rfl, rfl, rfl⟩ := hp
      decide
  have hcount : ∀ i, empty.emptyings i ops < 2 ^ 32 := by
    intro i
    -- the release empties one slot, and nothing else does
    show 0 + (0 + ((if 1 = i ∧ true then 1 else 0) + 0 + (0 + 0))) < 2 ^ 32
    split <;> decide
  exact ⟨hparents, hcount, rfl, rfl, lookup_ends ops hparents hcount⟩

end Bhasha.Heap
