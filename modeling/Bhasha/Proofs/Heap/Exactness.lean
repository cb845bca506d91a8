import Bhasha.Proofs.Heap.History

/-!
What collections and releases keep, exactly.

A collection keeps the frames that can be reached from the roots, and a release the candidates that
can be reached from its result through candidates. `Heap.Reached` says what that means without a
search, so that nothing depends on the order in which references are followed: cycles, handles that
are stale and handles that are given twice need no care of their own.

A release looks at its candidates only, and what it keeps of them is exact whatever they are. If no
frame outside refers to a candidate, it is as good as a collection of the whole heap in which
everything outside, and the result, is a root.
-/

namespace Bhasha.Heap

/-! ## What can be reached -/

/-- A handle is reached, inside a set of handles, from some of its members by going from frames to
what they refer to. -/
inductive Reached (h : Heap) (within : Set Env) (starts : List Env) : Env → Prop
  | start {e : Env} : e ∈ starts → e ∈ within → Reached h within starts e
  | step {d e : Env} : Reached h within starts d → h.Refers d e → e ∈ within →
      Reached h within starts e

section Reached

variable {h : Heap} {within : Set Env} {starts : List Env} {e : Env}

lemma Reached.mem (he : h.Reached within starts e) : e ∈ within := by
  cases he with
  | start _ hmem => exact hmem
  | step _ _ hmem => exact hmem

lemma Reached.mono_starts (he : h.Reached within starts e) {starts' : List Env}
    (hsub : starts ⊆ starts') : h.Reached within starts' e := by
  induction he with
  | start hstart hmem => exact .start (hsub hstart) hmem
  | step _ hde hmem ih => exact .step ih hde hmem

lemma Reached.of_path {d : Env} {among : List Env} (hd : d ∈ starts) (hmem : d ∈ among)
    (hde : Relation.ReflTransGen (h.RefersInto among) d e) :
    h.Reached {c | c ∈ among} starts e := by
  induction hde with
  | refl => exact .start hd hmem
  | tail _ hbc ih => exact .step ih hbc.1 hbc.2

end Reached

/-! ## What a search leaves over -/

/-- The search leaves over exactly what is not reached. -/
lemma mem_unreached {h : Heap} {within starts : List Env} {e : Env} :
    e ∈ h.unreached within starts ↔ e ∈ within ∧ ¬ h.Reached {d | d ∈ within} starts e := by
  constructor
  · intro he
    refine ⟨mem_of_mem_unreached he, fun hreached => ?_⟩
    have hout : ∀ d, h.Reached {d | d ∈ within} starts d → d ∉ h.unreached within starts := by
      intro d hd
      induction hd with
      | start hstart _ => exact not_mem_unreached_of_mem hstart
      | step hd hde _ ih => exact not_mem_unreached_of_refers hd.mem ih hde
    exact hout e hreached he
  · rintro ⟨hmem, hnot⟩
    by_contra hout
    obtain ⟨d, hd, hwithin, hde⟩ := reaches_of_not_mem_unreached hmem hout
    exact hnot (.of_path hd hwithin hde)

/-- Whether a handle is reached inside a list of handles can be told by the search. -/
instance (h : Heap) (within starts : List Env) (e : Env) :
    Decidable (h.Reached {d | d ∈ within} starts e) :=
  decidable_of_iff (e ∈ within ∧ e ∉ h.unreached within starts) <| by
    have hmem : h.Reached {d | d ∈ within} starts e → e ∈ within := Reached.mem
    rw [mem_unreached]
    tauto

/-- What is left over stands in the order of the set. -/
lemma exists_unreachedWithin_eq_filter (h : Heap) (n : Nat) (left pending : List Env) :
    ∃ p : Env → Bool, h.unreachedWithin n left pending = left.filter p := by
  induction n generalizing left pending with
  | zero => exact ⟨fun _ => true, by simp [unreachedWithin]⟩
  | succ n ih =>
    rw [unreachedWithin]
    split
    · exact ⟨fun _ => true, by simp⟩
    · rename_i env rest _
      obtain ⟨p, hp⟩ := ih (left.filter (· != env)) (h.references env ++ rest)
      exact ⟨fun e => p e && (e != env), by rw [hp, List.filter_filter]⟩

lemma unreached_sublist (h : Heap) (within starts : List Env) :
    (h.unreached within starts).Sublist within := by
  obtain ⟨p, hp⟩ := exists_unreachedWithin_eq_filter h within.length within starts
  rw [unreached, hp]
  exact List.filter_sublist

/-- What is left over depends neither on the order of the starts nor on how often they are given. -/
lemma unreached_congr (h : Heap) (within : List Env) {starts starts' : List Env}
    (hsame : ∀ e, e ∈ starts' ↔ e ∈ starts) :
    h.unreached within starts' = h.unreached within starts := by
  have hmem : ∀ e, e ∈ h.unreached within starts' ↔ e ∈ h.unreached within starts := by
    intro e
    have hreached : h.Reached {d | d ∈ within} starts' e ↔ h.Reached {d | d ∈ within} starts e :=
      ⟨fun he => he.mono_starts fun d => (hsame d).1, fun he => he.mono_starts fun d => (hsame d).2⟩
    rw [mem_unreached, mem_unreached, hreached]
  obtain ⟨p, hp⟩ := exists_unreachedWithin_eq_filter h within.length within starts
  obtain ⟨p', hp'⟩ := exists_unreachedWithin_eq_filter h within.length within starts'
  rw [unreached, unreached, hp, hp'] at hmem ⊢
  refine List.filter_congr fun e he => Bool.eq_iff_iff.2 ?_
  simpa [he] using hmem e

/-- The search without a bound on its steps: a pending handle that is not left, because it lies
outside the set or was taken out before, is passed over; one that is left is taken out, and what it
refers to is pending. -/
inductive Searches (h : Heap) : List Env → List Env → List Env → Prop
  | done {left : List Env} : Searches h left [] left
  | pass {left pending rest : List Env} {e : Env} :
      e ∉ left → Searches h left pending rest → Searches h left (e :: pending) rest
  | take {left pending rest : List Env} {e : Env} :
      e ∈ left → Searches h (left.filter (· != e)) (h.references e ++ pending) rest →
      Searches h left (e :: pending) rest

/-- What is passed over does not matter to the search. -/
lemma Searches.of_dropWhile {h : Heap} {left pending rest : List Env}
    (hs : h.Searches left (pending.dropWhile (!left.contains ·)) rest) :
    h.Searches left pending rest := by
  induction pending with
  | nil => exact hs
  | cons e pending ih =>
    by_cases he : e ∈ left
    · rwa [List.dropWhile_cons_of_neg (by simp [he])] at hs
    · rw [List.dropWhile_cons_of_pos (by simp [he])] at hs
      exact .pass he (ih hs)

/-- The search ends by itself, within as many steps as there are handles in the set. -/
lemma searches_unreachedWithin (h : Heap) (n : Nat) (left pending : List Env)
    (hn : left.length ≤ n) : h.Searches left pending (h.unreachedWithin n left pending) := by
  induction n generalizing left pending with
  | zero =>
    obtain rfl : left = [] := List.length_eq_zero_iff.1 (by omega)
    induction pending with
    | nil => exact .done
    | cons e pending ih => exact .pass List.not_mem_nil ih
  | succ n ih =>
    rw [unreachedWithin]
    refine .of_dropWhile ?_
    split
    · rename_i hdrop
      rw [hdrop]
      exact .done
    · rename_i e rest hdrop
      have he : e ∈ left := mem_of_dropWhile_eq_cons hdrop
      have hlen : (left.filter (· != e)).length < left.length :=
        List.length_filter_lt_length_iff_exists.2 ⟨e, he, by simp⟩
      rw [hdrop]
      exact .take he (ih _ _ (by omega))

/-! ## Collections -/

/-- The list of handles with a frame names none twice. -/
lemma nodup_live (h : Heap) : h.live.Nodup := by
  rw [live, List.Nodup, List.pairwise_filterMap]
  have hslots : (h.slots.toList.zipIdx.map Prod.snd).Nodup := by
    rw [List.zipIdx_map_snd]
    exact List.nodup_range'
  refine (List.pairwise_map.1 hslots).imp fun {a b} hne d hd e he hde => hne ?_
  obtain ⟨slot, i⟩ := a
  obtain ⟨slot', j⟩ := b
  simp only [Option.ite_none_right_eq_some, Option.some.injEq] at hd he
  rw [← hd.2, ← he.2, Env.mk.injEq] at hde
  exact hde.1

lemma setOf_mem_live (h : Heap) : {e | e ∈ h.live} = h.handles :=
  Set.ext fun _ => mem_live

/-- A collection keeps exactly the frames that are reached from the roots. -/
lemma contains_collect_iff {h : Heap} {roots : List Env} {e : Env} :
    (h.collect roots).2.contains e ↔ h.contains e ∧ h.Reached h.handles roots e := by
  rw [contains_collect, mem_unreached, setOf_mem_live, mem_live]
  tauto

/-- What a collection gives back is what has lost its frame. -/
lemma handles_sdiff_collect (h : Heap) (roots : List Env) :
    h.handles \ (h.collect roots).2.handles = {e | e ∈ h.unreached h.live roots} := by
  ext e
  have hlive : e ∈ h.unreached h.live roots → h.contains e := fun he =>
    mem_live.1 (mem_of_mem_unreached he)
  simp only [handles, Set.mem_sdiff, Set.mem_ofPred_eq, contains_collect]
  tauto

/-- What was reached is still reached after the collection. -/
lemma Reached.collect {h : Heap} {roots : List Env} {e : Env}
    (he : h.Reached h.handles roots e) :
    (h.collect roots).2.Reached (h.collect roots).2.handles roots e := by
  have hkept : ∀ {d}, h.Reached h.handles roots d → (h.collect roots).2.contains d := fun hd =>
    contains_collect_iff.2 ⟨hd.mem, hd⟩
  induction he with
  | start hroot hmem => exact .start hroot (hkept (.start hroot hmem))
  | step hd hde hmem ih =>
    obtain ⟨f, hf, hfe⟩ := hde
    refine .step ih ⟨f, ?_, hfe⟩ (hkept (.step hd ⟨f, hf, hfe⟩ hmem))
    rw [frame?_collect (hkept hd), hf]

/-- A second collection gives nothing back. -/
lemma collect_collect (h : Heap) (roots : List Env) :
    (h.collect roots).2.collect roots = (0, (h.collect roots).2) := by
  have hnone : (h.collect roots).2.unreached (h.collect roots).2.live roots = [] := by
    refine List.eq_nil_iff_forall_not_mem.2 fun e he => ?_
    rw [mem_unreached, setOf_mem_live, mem_live] at he
    exact he.2 (contains_collect_iff.1 he.1).2.collect
  rw [Heap.collect, hnone]
  rfl

/-- A collection is exact, in any heap and with any roots, stale or repeated. Its search ends, and
what that leaves over is given back. A frame stays exactly if it can be reached from a root with a
frame, going from frames to frames that they refer to, and it stays as it is under its handle. The
number yielded is that of the frames that are gone. The order of the roots does not matter, nor how
often each is given, and a second collection gives nothing back. -/
theorem collect_exact (h : Heap) (roots : List Env) :
    (∃ garbage, h.Searches h.live roots garbage ∧
      h.collect roots = (garbage.length, h.reclaimAll garbage)) ∧
    (∀ e, (h.collect roots).2.contains e ↔ h.contains e ∧ h.Reached h.handles roots e) ∧
    (∀ e, (h.collect roots).2.contains e → (h.collect roots).2.frame? e = h.frame? e) ∧
    (h.handles \ (h.collect roots).2.handles).encard = (h.collect roots).1 ∧
    (∀ roots', (∀ e, e ∈ roots' ↔ e ∈ roots) → h.collect roots' = h.collect roots) ∧
    (h.collect roots).2.collect roots = (0, (h.collect roots).2) := by
  refine ⟨⟨_, searches_unreachedWithin h _ h.live roots le_rfl, rfl⟩,
    fun e => contains_collect_iff, fun e => frame?_collect, ?_, fun roots' hsame => ?_,
    collect_collect h roots⟩
  · have hnodup : (h.unreached h.live roots).Nodup :=
      (nodup_live h).sublist (unreached_sublist h h.live roots)
    rw [handles_sdiff_collect, ← List.coe_toFinset, Set.encard_coe_eq_coe_finsetCard,
      List.toFinset_card_of_nodup hnodup]
    rfl
  · rw [Heap.collect, Heap.collect, unreached_congr h h.live hsame]

/-- Two frames that refer to each other go, and one that is held inside two arrays stays. Of the
roots one is stale and one is given twice. -/
theorem collect_exact_of_cycle :
    let h := after [.allocate none, .allocate (some ⟨0, 0⟩), .allocate (some ⟨1, 0⟩),
      .set ⟨1, 0⟩ "f" (.closure 0 default ⟨2, 0⟩), .allocate none,
      .set ⟨0, 0⟩ "g" (.array 1 [.array 2 [.closure 3 default ⟨3, 0⟩]])]
    let roots : List Env := [⟨0, 0⟩, ⟨1, 5⟩, ⟨0, 0⟩]
    let roots' : List Env := [⟨1, 5⟩, ⟨0, 0⟩]
    (∀ e, e ∈ roots' ↔ e ∈ roots) ∧ h.collect roots' = h.collect roots ∧
    (h.collect roots).1 = 2 ∧ (h.collect roots).2.live = [⟨0, 0⟩, ⟨3, 0⟩] ∧
    h.Reached h.handles roots ⟨3, 0⟩ ∧ ¬ h.Reached h.handles roots ⟨2, 0⟩ := by
  intro h roots roots'
  have hsame : ∀ e, e ∈ roots' ↔ e ∈ roots := by
    intro e
    simp only [roots, roots', List.mem_cons, List.not_mem_nil]
    tauto
  obtain ⟨-, hkept, -, -, horder, -⟩ := collect_exact h roots
  refine ⟨hsame, horder roots' hsame, rfl, rfl, ((hkept ⟨3, 0⟩).1 rfl).2, fun hreached => ?_⟩
  have hgone : ¬ (h.collect roots).2.contains ⟨2, 0⟩ := by decide
  exact hgone ((hkept ⟨2, 0⟩).2 ⟨rfl, hreached⟩)

/-! ## Releases -/

/-- A release keeps exactly the candidates that are reached from its result through candidates. -/
lemma mem_release_iff {h : Heap} {candidates : List Env} {result : Value} {e : Env} :
    e ∈ (h.release candidates result).1 ↔
      h.Reached {d | d ∈ candidates} result.captured e := by
  have hmem : h.Reached {d | d ∈ candidates} result.captured e → e ∈ candidates := Reached.mem
  rw [mem_release_fst, mem_unreached]
  tauto

section Candidates

variable {h : Heap} {candidates roots : List Env} {result : Value} {e : Env}

/-- A frame that is reached through candidates is reached through frames: a stale candidate refers
to nothing, so it comes last if at all. -/
lemma Reached.through_handles (hroots : ∀ d, result.Holds d → d ∈ roots)
    (he : h.Reached {d | d ∈ candidates} result.captured e) (hlive : h.contains e) :
    h.Reached h.handles roots e := by
  induction he with
  | start hheld _ => exact .start (hroots _ (Value.mem_captured.1 hheld)) hlive
  | step _ hde _ ih => exact .step (ih (contains_of_refers hde)) hde hlive

/-- A candidate that is reached through frames is reached through candidates: a way that starts
outside never comes to a candidate. -/
lemma Reached.through_candidates (houtside : ∀ d e, h.Refers d e → d ∉ candidates → e ∉ candidates)
    (hroots : ∀ d ∈ roots, d ∈ candidates → result.Holds d)
    (he : h.Reached h.handles roots e) (hc : e ∈ candidates) :
    h.Reached {d | d ∈ candidates} result.captured e := by
  induction he with
  | start hroot _ => exact .start (Value.mem_captured.2 (hroots _ hroot hc)) hc
  | @step d e _ hde _ ih =>
    have hd : d ∈ candidates := by
      by_contra hd
      exact houtside d e hde hd hc
    exact .step (ih hd) hde hc

end Candidates

/-- A release agrees with a collection. If no frame outside the candidates refers to a candidate,
then the release leaves the same frames, under the same handles and unchanged, as a collection that
has for its roots all frames outside the candidates and all environments that the result holds. -/
theorem frame?_release_eq_collect (h : Heap) (candidates : List Env) (result : Value)
    (houtside : ∀ d e, h.Refers d e → d ∉ candidates → e ∉ candidates) (roots : List Env)
    (hroots : ∀ e, e ∈ roots ↔ h.contains e ∧ e ∉ candidates ∨ result.Holds e) (e : Env) :
    (h.release candidates result).2.frame? e = (h.collect roots).2.frame? e := by
  have hiff : (h.release candidates result).2.contains e ↔ (h.collect roots).2.contains e := by
    rw [contains_release, contains_collect_iff, mem_release_iff]
    refine and_congr_right fun hlive => ⟨fun hkept => ?_, fun hreached hc => ?_⟩
    · by_cases hc : e ∈ candidates
      · exact (hkept hc).through_handles (fun d hd => (hroots d).2 (Or.inr hd)) hlive
      · exact .start ((hroots e).2 (Or.inl ⟨hlive, hc⟩)) hlive
    · exact hreached.through_candidates houtside
        (fun d hd hd' => ((hroots d).1 hd).resolve_left fun hout => hout.2 hd') hc
  by_cases hlive : (h.collect roots).2.contains e
  · rw [frame?_collect hlive, frame?_release, if_neg]
    exact fun hgone => hgone.2 ((contains_release.1 (hiff.2 hlive)).2 hgone.1)
  · rw [frame?_eq_none_of_not_contains hlive,
      frame?_eq_none_of_not_contains fun hc => hlive (hiff.1 hc)]

/-- Of the candidates, two refer to each other and the result holds one of them inside two arrays;
one is held by nothing, one is given twice and one is stale. -/
theorem frame?_release_eq_collect_of_cycle :
    let h := after [.allocate none, .allocate (some ⟨0, 0⟩), .allocate (some ⟨1, 0⟩),
      .set ⟨1, 0⟩ "f" (.closure 0 default ⟨2, 0⟩), .allocate (some ⟨0, 0⟩)]
    let candidates : List Env := [⟨1, 0⟩, ⟨2, 0⟩, ⟨3, 0⟩, ⟨1, 0⟩, ⟨3, 7⟩]
    let result : Value := .array 1 [.array 2 [.closure 3 default ⟨2, 0⟩]]
    let roots : List Env := [⟨0, 0⟩, ⟨2, 0⟩]
    (∀ d e, h.Refers d e → d ∉ candidates → e ∉ candidates) ∧
    (∀ e, e ∈ roots ↔ h.contains e ∧ e ∉ candidates ∨ result.Holds e) ∧
    (h.release candidates result).2.live = [⟨0, 0⟩, ⟨1, 0⟩, ⟨2, 0⟩] ∧
    ∀ e, (h.release candidates result).2.frame? e = (h.collect roots).2.frame? e := by
  intro h candidates result roots
  have houtside : ∀ d e, h.Refers d e → d ∉ candidates → e ∉ candidates := by
    have hall : ∀ d ∈ h.live, ∀ e ∈ h.references d, d ∉ candidates → e ∉ candidates := by decide
    intro d e hde
    exact hall d (mem_live.2 (contains_of_refers hde)) e (mem_heapReferences.2 hde)
  have hroots : ∀ e, e ∈ roots ↔ h.contains e ∧ e ∉ candidates ∨ result.Holds e := by
    intro e
    have hlive : h.live = [⟨0, 0⟩, ⟨1, 0⟩, ⟨2, 0⟩, ⟨3, 0⟩] := rfl
    have hheld : result.captured = [⟨2, 0⟩] := by simp [result, Value.captured, Value.capturedAll]
    rw [← mem_live, ← Value.mem_captured, hlive, hheld]
    simp only [roots, candidates, List.mem_cons, List.not_mem_nil]
    grind
  exact ⟨houtside, hroots, rfl, frame?_release_eq_collect h candidates result houtside roots hroots⟩

/-! ## Releases of any candidates -/

section Exact

variable {h : Heap} {candidates : List Env} {result : Value} {e : Env}

lemma frame?_release_eq_ite : (h.release candidates result).2.frame? e =
    if e ∈ candidates ∧ ¬ h.Reached {d | d ∈ candidates} result.captured e then none
    else h.frame? e := by
  simp only [frame?_release, mem_release_iff]

/-- What a release gives back is what has lost its frame. -/
lemma handles_sdiff_release : h.handles \ (h.release candidates result).2.handles =
    {e | h.contains e ∧ e ∈ candidates ∧ ¬ h.Reached {d | d ∈ candidates} result.captured e} := by
  ext e
  simp only [handles, Set.mem_sdiff, Set.mem_ofPred_eq, contains_release, mem_release_iff]
  tauto

/-- A frame that is given back twice is counted once. -/
lemma WellFormed.size_release (hw : h.WellFormed) :
    (h.handles \ (h.release candidates result).2.handles).encard +
      (h.release candidates result).2.size = h.size := by
  have hsub : (h.release candidates result).2.handles ⊆ h.handles := fun e he =>
    (contains_release.1 he).1
  have hw' : (h.release candidates result).2.WellFormed := hw.reclaimAll _
  rw [← hw'.encard_handles, Set.encard_sdiff_add_encard_of_subset hsub, hw.encard_handles]

/-- What a release yields stands in the order of the candidates, as often as it does there. -/
lemma release_fst_eq_filter : (h.release candidates result).1 =
    candidates.filter (h.Reached {d | d ∈ candidates} result.captured ·) := by
  refine List.filter_congr fun e he => Bool.eq_iff_iff.2 ?_
  have hkept : e ∈ (h.release candidates result).1 ↔
      h.Reached {d | d ∈ candidates} result.captured e := mem_release_iff
  rw [mem_release_fst] at hkept
  simpa [he] using hkept

end Exact

/-- A release is exact, whatever candidates it is given: handles that are stale or given twice, and
frames that others still refer to. Its search ends. It takes the frames of exactly those candidates
that are not reached from the result by going through candidates, where a stale candidate can be
reached but leads no further; every other frame stays as it is under its handle. The size goes down
by the number of frames that are gone. The candidates that are reached are yielded, in their order
and as often as they were given. -/
theorem release_exact {h : Heap} (hw : h.WellFormed) (candidates : List Env) (result : Value) :
    (∃ dead, h.Searches candidates result.captured dead ∧
      (h.release candidates result).2 = h.reclaimAll dead) ∧
    (∀ e, (h.release candidates result).2.frame? e =
      if e ∈ candidates ∧ ¬ h.Reached {d | d ∈ candidates} result.captured e then none
      else h.frame? e) ∧
    h.handles \ (h.release candidates result).2.handles =
      {e | h.contains e ∧ e ∈ candidates ∧ ¬ h.Reached {d | d ∈ candidates} result.captured e} ∧
    (h.handles \ (h.release candidates result).2.handles).encard +
      (h.release candidates result).2.size = h.size ∧
    (h.release candidates result).1 =
      candidates.filter (h.Reached {d | d ∈ candidates} result.captured ·) :=
  ⟨⟨_, searches_unreachedWithin h _ candidates result.captured le_rfl, rfl⟩,
    fun _ => frame?_release_eq_ite, handles_sdiff_release, hw.size_release, release_fst_eq_filter⟩

/-- The outermost frame refers to a candidate that is given twice, and it goes all the same. One
that the result holds refers to a stale candidate, whose slot has another frame by now. -/
theorem release_exact_of_stale_candidate :
    let h := after [.allocate none, .allocate (some ⟨0, 0⟩), .allocate (some ⟨1, 0⟩),
      .allocate none, .set ⟨2, 0⟩ "f" (.closure 0 default ⟨3, 0⟩), .release [⟨3, 0⟩] .null,
      .allocate none, .set ⟨0, 0⟩ "g" (.array 1 [.closure 2 default ⟨3, 1⟩])]
    let candidates : List Env := [⟨3, 1⟩, ⟨2, 0⟩, ⟨1, 0⟩, ⟨3, 0⟩, ⟨1, 0⟩, ⟨3, 1⟩]
    let result : Value := .closure 3 default ⟨2, 0⟩
    h.WellFormed ∧ ¬ h.contains ⟨3, 0⟩ ∧ ⟨3, 1⟩ ∈ h.references ⟨0, 0⟩ ∧
    h.handles \ (h.release candidates result).2.handles =
      {e | h.contains e ∧ e ∈ candidates ∧ ¬ h.Reached {d | d ∈ candidates} result.captured e} ∧
    (h.release candidates result).2.live = [⟨0, 0⟩, ⟨1, 0⟩, ⟨2, 0⟩] ∧
    candidates.filter (h.Reached {d | d ∈ candidates} result.captured ·) =
      [⟨2, 0⟩, ⟨1, 0⟩, ⟨3, 0⟩, ⟨1, 0⟩] := by
  intro h candidates result
  have hw : h.WellFormed := wellFormed_after _
  obtain ⟨-, -, hgone, -, hkept⟩ := release_exact hw candidates result
  exact ⟨hw, by decide, by decide, hgone, rfl, hkept.symm⟩

end Bhasha.Heap
