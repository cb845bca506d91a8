import Bhasha.Proofs.Heap.Frames
import Mathlib.Data.List.Nodup
import Mathlib.Data.List.Perm.Subperm
import Mathlib.Logic.Relation
import Mathlib.Order.Nat

/-!
Heaps without dangling handles.

A heap is sound if three things hold: its list of free slots is right, every handle that a frame
refers to has a frame, and every frame lies finitely deep, so that the search for a name ends at
an outermost frame. Making a frame inside one that exists and binding a value whose handles have
frames keep a heap sound. Giving frames back keeps it sound if no frame that stays refers to one
that goes.
-/

namespace Bhasha

/-! ## What refers to what -/

/-- A value holds an environment if it is a closure made there, or an array with an element that
holds it. -/
inductive Value.Holds : Value → Env → Prop
  | closure {id : ObjectId} {lambda : Lambda} {env : Env} : Holds (.closure id lambda env) env
  | element {id : ObjectId} {elements : List Value} {v : Value} {env : Env} :
      v ∈ elements → Holds v env → Holds (.array id elements) env

namespace Value

lemma mem_capturedAll {vs : List Value} {e : Env} :
    e ∈ capturedAll vs ↔ ∃ v ∈ vs, e ∈ v.captured := by
  induction vs with
  | nil => simp [capturedAll]
  | cons v vs ih => simp [capturedAll, ih]

mutual

lemma holds_of_mem_captured {e : Env} : ∀ v : Value, e ∈ v.captured → v.Holds e
  | .closure _ _ _, he => by
    rw [captured, List.mem_singleton] at he
    exact he ▸ .closure
  | .array _ elements, he => by
    rw [captured] at he
    obtain ⟨v, hv, hold⟩ := exists_holds_of_mem_capturedAll elements he
    exact .element hv hold
  | .int _, he | .bool _, he | .str _ _, he | .null, he | .builtin _, he => by
    simp [captured] at he

lemma exists_holds_of_mem_capturedAll {e : Env} :
    ∀ vs : List Value, e ∈ capturedAll vs → ∃ v ∈ vs, v.Holds e
  | [], he => by simp [capturedAll] at he
  | v :: vs, he => by
    rw [capturedAll, List.mem_append] at he
    rcases he with he | he
    · exact ⟨v, by simp, holds_of_mem_captured v he⟩
    · obtain ⟨w, hw, hold⟩ := exists_holds_of_mem_capturedAll vs he
      exact ⟨w, by simp [hw], hold⟩

end

/-- The environments that a value is traced to are those it holds. -/
lemma mem_captured {v : Value} {e : Env} : e ∈ v.captured ↔ v.Holds e := by
  refine ⟨holds_of_mem_captured v, fun h => ?_⟩
  induction h with
  | closure => simp [captured]
  | element hv _ ih => exact mem_capturedAll.2 ⟨_, hv, ih⟩

end Value

namespace Frame

/-- A frame refers to the environment around it and to those that its values hold. -/
def Refers (f : Frame) (e : Env) : Prop :=
  f.parent = some e ∨ ∃ b ∈ f.bindings, b.2.Holds e

lemma mem_references {f : Frame} {e : Env} : e ∈ f.references ↔ f.Refers e := by
  simp [references, Refers, Value.mem_captured]

lemma mem_of_get? {f : Frame} {name : String} {v : Value} (h : f.get? name = some v) :
    (name, v) ∈ f.bindings := by
  obtain ⟨before, after, hb, -⟩ := List.lookup_eq_some_iff.1 h
  simp [hb]

lemma mem_rebind {name : String} {v : Value} {bs : List (String × Value)} {b : String × Value}
    (hb : b ∈ rebind name v bs) : b ∈ bs ∨ b = (name, v) := by
  induction bs with
  | nil => exact Or.inr (by simpa [rebind] using hb)
  | cons c bs ih =>
    rw [rebind] at hb
    split at hb
    · rcases List.mem_cons.1 hb with rfl | hb
      · exact Or.inr rfl
      · exact Or.inl (by simp [hb])
    · rcases List.mem_cons.1 hb with rfl | hb
      · exact Or.inl (by simp)
      · exact (ih hb).imp (by simp +contextual) id

lemma refers_set {f : Frame} {name : String} {v : Value} {e : Env}
    (he : (f.set name v).Refers e) : f.Refers e ∨ v.Holds e := by
  rcases he with he | ⟨b, hb, hold⟩
  · exact Or.inl (Or.inl he)
  · rcases mem_rebind hb with hb | rfl
    · exact Or.inl (Or.inr ⟨b, hb, hold⟩)
    · exact Or.inr hold

end Frame

namespace Heap

/-- The frame of one handle refers to another handle. -/
def Refers (h : Heap) (d e : Env) : Prop :=
  ∃ f, h.frame? d = some f ∧ f.Refers e

lemma contains_of_refers {h : Heap} {d e : Env} (hde : h.Refers d e) : h.contains d := by
  obtain ⟨f, hf, -⟩ := hde
  exact contains_of_frame? hf

/-- Every handle that a frame refers to has a frame. -/
def Closed (h : Heap) : Prop :=
  ∀ d e, h.Refers d e → h.contains e

/-- What can be reached from a handle with a frame has a frame. -/
lemma Closed.contains_of_reaches {h : Heap} (hc : h.Closed) {d e : Env} (hd : h.contains d)
    (hde : Relation.ReflTransGen h.Refers d e) : h.contains e := by
  rcases hde.cases_tail with rfl | ⟨c, -, hce⟩
  · exact hd
  · exact hc c e hce

lemma mem_heapReferences {h : Heap} {d e : Env} : e ∈ h.references d ↔ h.Refers d e := by
  unfold references Refers
  rcases h.frame? d with _ | f
  · simp
  · simp [Frame.mem_references]

/-! ## Frames lie finitely deep -/

/-- The environment of a handle is the `n`-th from the outermost one around it. -/
inductive Nested (h : Heap) : Nat → Env → Prop
  | outermost {e : Env} {f : Frame} : h.frame? e = some f → f.parent = none → Nested h 1 e
  | inside {n : Nat} {e p : Env} {f : Frame} :
      h.frame? e = some f → f.parent = some p → Nested h n p → Nested h (n + 1) e

lemma Nested.contains {h : Heap} {n : Nat} {e : Env} (hn : h.Nested n e) : h.contains e := by
  cases hn with
  | outermost hf _ => exact contains_of_frame? hf
  | inside hf _ _ => exact contains_of_frame? hf

/-- An environment has one depth. -/
lemma Nested.unique {h : Heap} {m n : Nat} {e : Env} (hm : h.Nested m e) (hn : h.Nested n e) :
    m = n := by
  induction hm generalizing n with
  | outermost hf hp =>
    cases hn with
    | outermost => rfl
    | inside hf' hp' => simp_all
  | inside hf hp _ ih =>
    cases hn with
    | outermost hf' hp' => simp_all
    | inside hf' hp' hn' =>
      rw [hf, Option.some.injEq] at hf'
      subst hf'
      rw [hp, Option.some.injEq] at hp'
      subst hp'
      rw [ih hn']

/-- The environments from one outward to the outermost: no two are the same, since no two are
equally deep. -/
lemma Nested.exists_chain {h : Heap} {n : Nat} {e : Env} (hn : h.Nested n e) :
    ∃ chain : List Env, chain.length = n ∧ chain.Nodup ∧ ∀ d ∈ chain, ∃ k ≤ n, h.Nested k d := by
  induction hn with
  | @outermost e f hf hp =>
    refine ⟨[e], rfl, List.nodup_singleton e, fun d hd => ⟨1, le_rfl, ?_⟩⟩
    rw [List.mem_singleton.1 hd]
    exact .outermost hf hp
  | @inside n e p f hf hp hn ih =>
    obtain ⟨chain, hlen, hnd, hdepth⟩ := ih
    have he : h.Nested (n + 1) e := .inside hf hp hn
    refine ⟨e :: chain, by rw [List.length_cons, hlen], List.nodup_cons.2 ⟨fun hmem => ?_, hnd⟩, ?_⟩
    · obtain ⟨k, hk, hek⟩ := hdepth e hmem
      have := he.unique hek
      omega
    · intro d hd
      rcases List.mem_cons.1 hd with rfl | hd
      · exact ⟨n + 1, le_rfl, he⟩
      · obtain ⟨k, hk, hdk⟩ := hdepth d hd
        exact ⟨k, by omega, hdk⟩

/-- An environment is no deeper than there are slots. -/
lemma Nested.le_size {h : Heap} {n : Nat} {e : Env} (hn : h.Nested n e) : n ≤ h.slots.size := by
  obtain ⟨chain, hlen, hnd, hdepth⟩ := hn.exists_chain
  have hlive : ∀ d ∈ chain, h.contains d := fun d hd => by
    obtain ⟨k, -, hk⟩ := hdepth d hd
    exact hk.contains
  have hslots : (chain.map Env.index).Nodup :=
    hnd.map_on fun d hd e he hi => eq_of_index_eq (hlive d hd) (hlive e he) hi
  have hsub : chain.map Env.index ⊆ List.range h.slots.size := by
    intro i hi
    obtain ⟨d, hd, rfl⟩ := List.mem_map.1 hi
    exact List.mem_range.2 (index_lt_of_contains (hlive d hd))
  simpa [hlen] using (hslots.subperm hsub).length_le

/-- A search that begins at a stale handle finds nothing. -/
lemma getWithin_of_frame?_eq_none {h : Heap} {e : Env} (he : h.frame? e = none) (n : Nat)
    (name : String) : h.getWithin n e name = none := by
  cases n with
  | zero => rfl
  | succ n => simp [getWithin, he]

/-- A search that may look at all frames from an environment outward finds what any longer one
does. -/
lemma Nested.getWithin_eq {h : Heap} {n : Nat} {e : Env} (hn : h.Nested n e) (name : String)
    {k : Nat} (hk : n ≤ k) : h.getWithin k e name = h.getWithin n e name := by
  induction hn generalizing k with
  | outermost hf hp =>
    obtain ⟨k, rfl⟩ := Nat.exists_eq_add_of_le' hk
    simp [getWithin, hf, hp]
  | inside hf hp _ ih =>
    obtain ⟨k, rfl⟩ : ∃ k', k = k' + 1 := ⟨k - 1, by omega⟩
    simp only [getWithin, hf, hp]
    rw [ih (by omega)]

/-- The value of a name, found by any search that is long enough. -/
lemma Nested.get?_eq {h : Heap} {n : Nat} {e : Env} (hn : h.Nested n e) (name : String) :
    h.get? e name = h.getWithin n e name :=
  hn.getWithin_eq name hn.le_size

/-- Depths survive where parents do. -/
lemma Nested.mono {h h' : Heap} {n : Nat} {e : Env} (hn : h.Nested n e)
    (hparent : ∀ d f, h.frame? d = some f → h'.contains d →
      ∃ f', h'.frame? d = some f' ∧ f'.parent = f.parent)
    (hc : h'.Closed) (he : h'.contains e) : h'.Nested n e := by
  induction hn with
  | outermost hf hp =>
    obtain ⟨f', hf', hp'⟩ := hparent _ _ hf he
    exact .outermost hf' (hp'.trans hp)
  | inside hf hp _ ih =>
    obtain ⟨f', hf', hp'⟩ := hparent _ _ hf he
    rw [hp] at hp'
    exact .inside hf' hp' (ih (hc _ _ ⟨f', hf', Or.inl hp'⟩))

/-! ## Sound heaps -/

/-- A heap without dangling handles. -/
structure Sound (h : Heap) : Prop where
  wellFormed : h.WellFormed
  closed : h.Closed
  nested : ∀ e, h.contains e → ∃ n, h.Nested n e

/-- A name has the value that the frame binds to it, or else the one it has around the frame. -/
lemma Sound.get?_eq {h : Heap} (hs : h.Sound) {e : Env} {f : Frame} (hf : h.frame? e = some f)
    (name : String) : h.get? e name = (f.get? name).or (f.parent.bind (h.get? · name)) := by
  obtain ⟨n, hn⟩ := hs.nested e (contains_of_frame? hf)
  rw [hn.get?_eq]
  cases hn with
  | outermost hf' hp =>
    obtain rfl : f = _ := Option.some.inj (hf.symm.trans hf')
    rcases hv : f.get? name with _ | v <;> simp [getWithin, hf, hv, hp]
  | inside hf' hp hn =>
    obtain rfl : f = _ := Option.some.inj (hf.symm.trans hf')
    rcases hv : f.get? name with _ | v <;> simp [getWithin, hf, hv, hp, hn.get?_eq]

/-- A name that is not found is not bound in the frame where the search begins, and is not found
from there outward. -/
lemma getWithin_succ_eq_none {h : Heap} {k : Nat} {e : Env} {f : Frame} {name : String}
    (hf : h.frame? e = some f) (hnone : h.getWithin (k + 1) e name = none) :
    f.get? name = none ∧ ∀ p, f.parent = some p → h.getWithin k p name = none := by
  rcases hv : f.get? name with _ | v
  · exact ⟨rfl, fun p hp => by simpa [getWithin, hf, hv, hp] using hnone⟩
  · simp [getWithin, hf, hv] at hnone

lemma exists_frame_of_get? {h : Heap} {e : Env} {name : String} {v : Value}
    (hv : h.get? e name = some v) : ∃ d f, h.frame? d = some f ∧ (name, v) ∈ f.bindings := by
  have go : ∀ (k : Nat) (e : Env), h.getWithin k e name = some v →
      ∃ d f, h.frame? d = some f ∧ (name, v) ∈ f.bindings := by
    intro k
    induction k with
    | zero => intro e hv; simp [getWithin] at hv
    | succ k ih =>
      intro e hv
      rw [getWithin] at hv
      rcases hf : h.frame? e with _ | f
      · simp [hf] at hv
      · rcases hg : f.get? name with _ | w
        · rcases hp : f.parent with _ | p
          · simp [hf, hg, hp] at hv
          · exact ih p (by simpa [hf, hg, hp] using hv)
        · have hw : w = v := by simpa [hf, hg] using hv
          subst hw
          exact ⟨e, f, hf, Frame.mem_of_get? hg⟩
  exact go _ e hv

/-- What is found under a name holds no dangling handle. -/
lemma Closed.contains_of_get? {h : Heap} (hc : h.Closed) {e : Env} {name : String} {v : Value}
    (hv : h.get? e name = some v) {r : Env} (hr : v.Holds r) : h.contains r := by
  obtain ⟨d, f, hf, hmem⟩ := exists_frame_of_get? hv
  exact hc d r ⟨f, hf, Or.inr ⟨(name, v), hmem, hr⟩⟩

lemma Sound.set {h : Heap} (hs : h.Sound) {e : Env} {name : String} {v : Value}
    (hv : ∀ r, v.Holds r → h.contains r) : (h.set e name v).Sound := by
  have hc : (h.set e name v).Closed := by
    rintro d r ⟨f, hf, hr⟩
    rw [contains_set]
    rw [frame?_set] at hf
    split at hf
    · obtain ⟨g, hg, rfl⟩ := Option.map_eq_some_iff.1 hf
      rcases Frame.refers_set hr with hr | hr
      · exact hs.closed e r ⟨g, hg, hr⟩
      · exact hv r hr
    · exact hs.closed d r ⟨f, hf, hr⟩
  refine ⟨hs.wellFormed.set e name v, hc, fun d hd => ?_⟩
  obtain ⟨n, hn⟩ := hs.nested d (by simpa using hd)
  refine ⟨n, hn.mono (fun c f hf _ => ?_) hc hd⟩
  rw [frame?_set]
  by_cases hce : c = e
  · subst hce
    exact ⟨f.set name v, by simp [hf], rfl⟩
  · exact ⟨f, by simp [hce, hf], rfl⟩

lemma Sound.allocate {h : Heap} (hs : h.Sound) {parent : Option Env}
    (hp : ∀ p, parent = some p → h.contains p) : (h.allocate parent).2.Sound := by
  have hframe := frame?_allocate hs.wellFormed parent
  have hfresh := not_contains_of_frame? (frame?_allocate_fst hs.wellFormed parent)
  -- frames that were there are there
  have hold : ∀ d f, h.frame? d = some f → (h.allocate parent).2.frame? d = some f := by
    intro d f hf
    rw [hframe, if_neg, hf]
    rintro rfl
    exact hfresh (contains_of_frame? hf)
  have hlive : ∀ d, h.contains d → (h.allocate parent).2.contains d := by
    intro d hd
    obtain ⟨f, hf⟩ := contains_iff.1 hd
    exact contains_of_frame? (hold d f hf)
  have hc : (h.allocate parent).2.Closed := by
    rintro d r ⟨f, hf, hr⟩
    rw [hframe] at hf
    split at hf
    · obtain rfl : ({ parent } : Frame) = f := by simpa using hf
      rcases hr with hr | ⟨b, hb, -⟩
      · exact hlive r (hp r hr)
      · simp at hb
    · exact hlive r (hs.closed d r ⟨f, hf, hr⟩)
  have hmono : ∀ {n d}, h.Nested n d → (h.allocate parent).2.Nested n d := fun hn =>
    hn.mono (fun c f hf _ => ⟨f, hold c f hf, rfl⟩) hc (hlive _ hn.contains)
  refine ⟨hs.wellFormed.allocate parent, hc, fun d hd => ?_⟩
  by_cases hnew : d = (h.allocate parent).1
  · have hf : (h.allocate parent).2.frame? d = some { parent } := by rw [hframe, if_pos hnew]
    rcases parent with _ | p
    · exact ⟨1, .outermost hf rfl⟩
    · obtain ⟨n, hn⟩ := hs.nested p (hp p rfl)
      exact ⟨n + 1, .inside hf rfl (hmono hn)⟩
  · have hd' : h.contains d := by
      obtain ⟨f, hf⟩ := contains_iff.1 hd
      rw [hframe, if_neg hnew] at hf
      exact contains_of_frame? hf
    obtain ⟨n, hn⟩ := hs.nested d hd'
    exact ⟨n, hmono hn⟩

lemma Sound.reclaimAll {h : Heap} (hs : h.Sound) {es : List Env}
    (hes : ∀ d e, h.Refers d e → d ∉ es → e ∉ es) : (h.reclaimAll es).Sound := by
  have hc : (h.reclaimAll es).Closed := by
    rintro d r ⟨f, hf, hr⟩
    rw [frame?_reclaimAll] at hf
    split at hf
    · exact absurd hf (by simp)
    · rename_i hd
      exact contains_reclaimAll.2 ⟨hs.closed d r ⟨f, hf, hr⟩, hes d r ⟨f, hf, hr⟩ hd⟩
  refine ⟨hs.wellFormed.reclaimAll es, hc, fun d hd => ?_⟩
  obtain ⟨n, hn⟩ := hs.nested d (contains_reclaimAll.1 hd).1
  refine ⟨n, hn.mono (fun c f hf hce => ⟨f, ?_, rfl⟩) hc hd⟩
  rw [frame?_reclaimAll, if_neg (contains_reclaimAll.1 hce).2, hf]

end Heap

end Bhasha
