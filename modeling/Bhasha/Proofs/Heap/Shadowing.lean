import Bhasha.Proofs.Heap.Ancestry

/-!
A binding shadows.

To bind a name is to write one frame. The lookups that can tell are those that come to the frame
before they have found the name: the frame lies on their way outward, and no frame before it binds
the name. For them the new value is the answer. For all others nothing has changed, be it that the
frame does not lie on their way, that a nearer one binds the name, that the way breaks off at a
stale handle, or that the handle written through is itself stale.

In particular a binding never acts outward: from the environments around a frame no way leads back
to it, since no environment is met twice.
-/

namespace Bhasha.Heap

variable {h : Heap} {d e f p : Env} {n name : String} {v : Value} {result : Option Value}

/-! ## What a search comes to -/

/-- A way outward can be gone in two parts. -/
lemma outward?_add {k : Nat} (hd : h.outward? e k = some d) (j : Nat) :
    h.outward? e (k + j) = h.outward? d j := by
  induction j with
  | zero => exact hd
  | succ j ih => rw [← Nat.add_assoc, outward?, outward?, ih]

/-- The search for a name from one environment comes to another: that lies on the way outward, and
the frames before it do not bind the name. -/
def ComesTo (h : Heap) (n : String) (e f : Env) : Prop :=
  ∃ k, h.outward? e k = some f ∧
    ∀ i < k, ∃ d g, h.outward? e i = some d ∧ h.frame? d = some g ∧ g.get? n = none

lemma ComesTo.refl (h : Heap) (n : String) (e : Env) : h.ComesTo n e e :=
  ⟨0, rfl, fun i hi => absurd hi (Nat.not_lt_zero i)⟩

/-- From a frame that does not bind the name the search goes on around it. -/
lemma ComesTo.outward {g : Frame} (hg : h.frame? e = some g) (hn : g.get? n = none)
    (hp : g.parent = some p) (hc : h.ComesTo n p f) : h.ComesTo n e f := by
  obtain ⟨k, hk, hbefore⟩ := hc
  have hstep : h.outward? e 1 = some p := outward?_succ rfl (by simp [parent?, hg, hp])
  refine ⟨1 + k, by rw [outward?_add hstep, hk], fun i hi => ?_⟩
  cases i with
  | zero => exact ⟨e, g, rfl, hg, hn⟩
  | succ i =>
    obtain ⟨d, g', hd, hg', hn'⟩ := hbefore i (by omega)
    exact ⟨d, g', by rw [Nat.add_comm, outward?_add hstep, hd], hg', hn'⟩

/-- From around an environment no search comes back to it. -/
lemma Acyclic.not_comesTo (ha : h.Acyclic) {k : Nat} (hk : 0 < k) (he : h.outward? f k = some e) :
    ¬ h.ComesTo n e f := by
  rintro ⟨j, hj, -⟩
  refine ha f 0 (k + j) f (by omega) rfl ?_
  rw [outward?_add he, hj]

/-! ## Searches after a binding -/

lemma parent?_set (h : Heap) (f : Env) (name : String) (v : Value) (d : Env) :
    (h.set f name v).parent? d = h.parent? d := by
  rw [parent?, parent?, frame?_set]
  by_cases hd : d = f
  · subst hd
    rw [if_pos rfl]
    rcases h.frame? d with _ | g <;> rfl
  · rw [if_neg hd]

lemma outward?_set (h : Heap) (f : Env) (name : String) (v : Value) (e : Env) (k : Nat) :
    (h.set f name v).outward? e k = h.outward? e k := by
  induction k with
  | zero => rfl
  | succ k ih =>
    have hparent : (h.set f name v).parent? = h.parent? := funext (parent?_set h f name v)
    rw [outward?, outward?, ih, hparent]

lemma Acyclic.set (ha : h.Acyclic) (f : Env) (name : String) (v : Value) :
    (h.set f name v).Acyclic := by
  intro e i j d hij hd
  rw [outward?_set] at hd ⊢
  exact ha e i j d hij hd

/-- A search that comes to the frame where its name was bound ends with the value. -/
lemma ComesTo.lookup_set (hc : h.ComesTo n e f) (hf : h.contains f) (v : Value) :
    ∃ met, (h.set f n v).Lookup n e met (some v) := by
  obtain ⟨g, hg⟩ := contains_iff.1 hf
  have hbound : (h.set f n v).Lookup n f [f] (some v) :=
    .bound (f := g.set n v) (by simp [frame?_set, hg]) (by simp [Frame.get?_set])
  obtain ⟨k, hk, hbefore⟩ := hc
  -- back along the way: what the search ends with does not change from frame to frame
  have hback : ∀ d, h.outward? e k = some d → (∃ met, (h.set f n v).Lookup n d met (some v)) →
      ∃ met, (h.set f n v).Lookup n e met (some v) := by
    clear hk
    induction k with
    | zero =>
      rintro d ⟨⟩ hlookup
      exact hlookup
    | succ k ih =>
      rintro d hd ⟨met, hlookup⟩
      obtain ⟨c, hc, hp⟩ := Option.bind_eq_some_iff.1 hd
      refine ih (fun i hi => hbefore i (by omega)) c hc ?_
      by_cases hcf : c = f
      · exact ⟨[f], hcf ▸ hbound⟩
      · obtain ⟨c', g', hc', hg', hn⟩ := hbefore k (Nat.lt_succ_self k)
        obtain rfl : c = c' := Option.some.inj (hc.symm.trans hc')
        have hparent : g'.parent = some d := by simpa [parent?, hg'] using hp
        exact ⟨c :: met, .outward (by rw [frame?_set, if_neg hcf, hg']) hn hparent hlookup⟩
  exact hback f hk ⟨[f], hbound⟩

/-- A search for another name, or one that does not come to the frame written, ends as before. -/
lemma Lookup.set {met : List Env} (hl : h.Lookup n e met result)
    (hnot : ¬ (h.contains f ∧ n = name ∧ h.ComesTo n e f)) :
    (h.set f name v).Lookup n e met result := by
  -- a frame that the search looks at gives it what it gave before
  have hlook : ∀ {e g}, ¬ (h.contains f ∧ n = name ∧ h.ComesTo n e f) → h.frame? e = some g →
      ∃ g', (h.set f name v).frame? e = some g' ∧ g'.get? n = g.get? n ∧ g'.parent = g.parent := by
    intro e g hnot hg
    by_cases he : e = f
    · subst he
      refine ⟨g.set name v, by simp [frame?_set, hg], ?_, rfl⟩
      rw [Frame.get?_set, if_neg]
      exact fun hn => hnot ⟨contains_of_frame? hg, hn, .refl h n e⟩
    · exact ⟨g, by rw [frame?_set, if_neg he, hg], rfl, rfl⟩
  induction hl with
  | @stale e hg =>
    refine .stale (frame?_eq_none_of_not_contains ?_)
    rw [contains_set]
    exact not_contains_of_frame? hg
  | bound hg hv =>
    obtain ⟨g', hg', hget, -⟩ := hlook hnot hg
    exact .bound hg' (hget.trans hv)
  | outermost hg hv hp =>
    obtain ⟨g', hg', hget, hparent⟩ := hlook hnot hg
    exact .outermost hg' (hget.trans hv) (hparent.trans hp)
  | outward hg hv hp _ ih =>
    obtain ⟨g', hg', hget, hparent⟩ := hlook hnot hg
    exact .outward hg' (hget.trans hv) (hparent.trans hp)
      (ih fun hc => hnot ⟨hc.1, hc.2.1, hc.2.2.outward hg hv hp⟩)

/-! ## What is found -/

/-- A search goes one way. -/
lemma Lookup.unique {met met' : List Env} {result' : Option Value} (hl : h.Lookup n e met result)
    (hl' : h.Lookup n e met' result') : met = met' ∧ result = result' := by
  induction hl generalizing met' result' with
  | stale hg => cases hl' <;> simp_all
  | bound hg hv => cases hl' <;> simp_all
  | outermost hg hv hp => cases hl' <;> simp_all
  | outward hg hv hp _ ih =>
    cases hl' with
    | outward hg' hv' hp' hl'' =>
      rw [hg, Option.some.injEq] at hg'
      subst hg'
      rw [hp, Option.some.injEq] at hp'
      subst hp'
      obtain ⟨rfl, rfl⟩ := ih hl''
      exact ⟨rfl, rfl⟩
    | _ => simp_all

/-- Where no environment is met twice, the value of a name is what its search ends with. -/
lemma Acyclic.lookup_get? (ha : h.Acyclic) (hw : h.WellFormed) (e : Env) (n : String) :
    ∃ met, h.Lookup n e met (h.get? e n) := by
  obtain ⟨met, result, hl, hlen⟩ := ha.exists_lookup hw e n
  refine ⟨met, ?_⟩
  rwa [get?, hl.getWithin_eq (hlen.trans (Nat.sub_le _ _))]

lemma Acyclic.get?_eq (ha : h.Acyclic) (hw : h.WellFormed) {met : List Env}
    (hl : h.Lookup n e met result) : h.get? e n = result := by
  obtain ⟨met', hl'⟩ := ha.lookup_get? hw e n
  exact (hl'.unique hl).2

/-- A binding shadows, and it never acts outward. Take any heap in which no environment is met twice
on a way outward, and bind a name in the frame of any handle. Every search still ends. One for the
name that comes to the frame, past frames that do not bind the name, finds the new value, if the
handle has a frame; every other search, from any handle and for any name, finds what it found
before. Searches that start around the frame are among the latter. -/
theorem set_shadows (ops : List Op) (ha : (after ops).Acyclic) (f : Env) (name : String)
    (v : Value) :
    (∀ e n, ∃ met, ((after ops).set f name v).Lookup n e met
      (((after ops).set f name v).get? e n)) ∧
    (∀ e n, (after ops).contains f → n = name → (after ops).ComesTo n e f →
      ((after ops).set f name v).get? e n = some v) ∧
    (∀ e n, ¬ ((after ops).contains f ∧ n = name ∧ (after ops).ComesTo n e f) →
      ((after ops).set f name v).get? e n = (after ops).get? e n) ∧
    ∀ e k n, 0 < k → (after ops).outward? f k = some e →
      ((after ops).set f name v).get? e n = (after ops).get? e n := by
  have hw := wellFormed_after ops
  have ha' : ((after ops).set f name v).Acyclic := ha.set f name v
  have hw' : ((after ops).set f name v).WellFormed := hw.set f name v
  have hother : ∀ e n, ¬ ((after ops).contains f ∧ n = name ∧ (after ops).ComesTo n e f) →
      ((after ops).set f name v).get? e n = (after ops).get? e n := by
    intro e n hnot
    obtain ⟨met, hl⟩ := ha.lookup_get? hw e n
    exact ha'.get?_eq hw' (hl.set hnot)
  refine ⟨fun e n => ha'.lookup_get? hw' e n, ?_, hother, ?_⟩
  · rintro e n hf rfl hc
    obtain ⟨met, hl⟩ := hc.lookup_set hf v
    exact ha'.get?_eq hw' hl
  · intro e k n hk he
    exact hother e n fun hc => ha.not_comesTo hk he hc.2.2

/-- A name of the outermost frame is bound in a frame inside. A frame further inside finds the new
value, and the outermost one keeps its own. -/
theorem set_shadows_of_nested :
    let ops : List Op := [.allocate none, .set ⟨0, 0⟩ "x" (.int 1), .allocate (some ⟨0, 0⟩),
      .allocate (some ⟨1, 0⟩), .set ⟨2, 0⟩ "y" (.int 5)]
    let h := (after ops).set ⟨1, 0⟩ "x" (.int 2)
    (after ops).Acyclic ∧ (after ops).contains ⟨1, 0⟩ ∧ (after ops).ComesTo "x" ⟨2, 0⟩ ⟨1, 0⟩ ∧
    (after ops).outward? ⟨1, 0⟩ 1 = some ⟨0, 0⟩ ∧ h.get? ⟨2, 0⟩ "x" = some (.int 2) ∧
    h.get? ⟨2, 0⟩ "y" = (after ops).get? ⟨2, 0⟩ "y" ∧ h.get? ⟨0, 0⟩ "x" = some (.int 1) := by
  intro ops h
  have ha : (after ops).Acyclic := by
    have hrank : ∀ d ∈ (after ops).live, ∀ p ∈ (after ops).parent? d, p.index < d.index := by decide
    exact acyclic_of_rank Env.index fun d p hp => hrank d (mem_live.2 (contains_of_parent? hp)) p hp
  have hc : (after ops).ComesTo "x" ⟨2, 0⟩ ⟨1, 0⟩ :=
    ⟨1, rfl, fun i hi => ⟨⟨2, 0⟩, { bindings := [("y", .int 5)], parent := some ⟨1, 0⟩ }, by
      obtain rfl : i = 0 := by omega
      exact ⟨rfl, rfl, rfl⟩⟩⟩
  obtain ⟨-, hnew, hother, haround⟩ := set_shadows ops ha ⟨1, 0⟩ "x" (.int 2)
  refine ⟨ha, rfl, hc, rfl, hnew ⟨2, 0⟩ "x" rfl rfl hc, hother ⟨2, 0⟩ "y" fun hx => ?_, ?_⟩
  · exact absurd hx.2.1 (by decide)
  · exact (haround ⟨0, 0⟩ 1 "x" Nat.one_pos rfl).trans rfl

end Bhasha.Heap
