import Bhasha.Proofs.Heap.Integrity

/-!
What a search leaves over, and what is given back by it.

The search `unreached` starts with a set of handles and takes out of it, one by one, those it can
reach. At its end no start is left, and nothing left is referred to by a handle that was taken
out. For a collection, which searches all handles with frames, this is all that is needed. A
release searches its candidates only, so it also needs that no frame outside refers to them.
Conversely, whatever the search takes out it has reached from a start through the set, so it
keeps nothing without a reason.
-/

namespace Bhasha.Heap

/-! ## The search -/

lemma mem_of_mem_unreachedWithin {h : Heap} {n : Nat} {left pending : List Env} {e : Env}
    (he : e ∈ h.unreachedWithin n left pending) : e ∈ left := by
  induction n generalizing left pending with
  | zero => exact he
  | succ n ih =>
    rw [unreachedWithin] at he
    split at he
    · exact he
    · exact List.mem_of_mem_filter (ih he)

/-- What the search stops at is in the set. -/
lemma mem_of_dropWhile_eq_cons {left pending rest : List Env} {e : Env}
    (hdrop : pending.dropWhile (!left.contains ·) = e :: rest) : e ∈ left := by
  have hhead := List.head?_dropWhile_not (!left.contains ·) pending
  rw [hdrop] at hhead
  simpa using hhead

/-- The search ends with no start left over and, of what it has taken out, nothing refers to what
is left over. -/
lemma unreachedWithin_closed (h : Heap) (n : Nat) (left pending : List Env)
    (hn : left.length ≤ n) :
    (∀ e ∈ pending, e ∉ h.unreachedWithin n left pending) ∧
      ∀ d ∈ left, d ∉ h.unreachedWithin n left pending → ∀ e, h.Refers d e →
        e ∉ h.unreachedWithin n left pending := by
  induction n generalizing left pending with
  | zero =>
    obtain rfl : left = [] := List.length_eq_zero_iff.1 (by omega)
    simp [unreachedWithin]
  | succ n ih =>
    rw [unreachedWithin]
    -- what the search passes over is not in the set
    have hskip : ∀ e ∈ pending.takeWhile (!left.contains ·), e ∉ left := fun e he => by
      simpa using (List.all_eq_true.1 List.all_takeWhile) e he
    have hsplit : pending.takeWhile (!left.contains ·) ++ pending.dropWhile (!left.contains ·) =
        pending := List.takeWhile_append_dropWhile
    split
    · rename_i hdrop
      rw [hdrop, List.append_nil] at hsplit
      rw [hsplit] at hskip
      exact ⟨hskip, fun d hd hd' => absurd hd hd'⟩
    · rename_i env rest hdrop
      have henv : env ∈ left := mem_of_dropWhile_eq_cons hdrop
      have hlen : (left.filter (· != env)).length ≤ n := by
        have := List.length_filter_lt_length_iff_exists.2
          (⟨env, henv, by simp⟩ : ∃ d ∈ left, ¬ (d != env) = true)
        omega
      obtain ⟨hpending, hclosed⟩ := ih _ (h.references env ++ rest) hlen
      have hsub : ∀ e ∈ h.unreachedWithin n (left.filter (· != env)) (h.references env ++ rest),
          e ∈ left ∧ e ≠ env := fun e he => by
        simpa using mem_of_mem_unreachedWithin he
      refine ⟨fun e he => ?_, fun d hd hd' e hde => ?_⟩
      · rw [← hsplit, hdrop, List.mem_append, List.mem_cons] at he
        rcases he with he | rfl | he
        · exact fun hc => hskip e he (hsub e hc).1
        · exact fun hc => (hsub e hc).2 rfl
        · exact hpending e (by simp [he])
      · by_cases hdenv : d = env
        · subst hdenv
          exact hpending e (by simp [mem_heapReferences.2 hde])
        · exact hclosed d (by simp [hd, hdenv]) hd' e hde

lemma mem_of_mem_unreached {h : Heap} {within starts : List Env} {e : Env}
    (he : e ∈ h.unreached within starts) : e ∈ within :=
  mem_of_mem_unreachedWithin he

lemma not_mem_unreached_of_mem {h : Heap} {within starts : List Env} {e : Env}
    (he : e ∈ starts) : e ∉ h.unreached within starts :=
  (unreachedWithin_closed h _ within starts le_rfl).1 e he

lemma not_mem_unreached_of_refers {h : Heap} {within starts : List Env} {d e : Env}
    (hd : d ∈ within) (hd' : d ∉ h.unreached within starts) (hde : h.Refers d e) :
    e ∉ h.unreached within starts :=
  (unreachedWithin_closed h _ within starts le_rfl).2 d hd hd' e hde

/-- One handle refers to another, which lies in a set. -/
def RefersInto (h : Heap) (within : List Env) (d e : Env) : Prop :=
  h.Refers d e ∧ e ∈ within

/-- What the search takes out is reached from what was pending, through what was left. -/
lemma reaches_of_not_mem_unreachedWithin {h : Heap} {n : Nat} {left pending : List Env} {e : Env}
    (he : e ∈ left) (hout : e ∉ h.unreachedWithin n left pending) :
    ∃ d ∈ pending, d ∈ left ∧ Relation.ReflTransGen (h.RefersInto left) d e := by
  induction n generalizing left pending with
  | zero => exact absurd he hout
  | succ n ih =>
    rw [unreachedWithin] at hout
    split at hout
    · exact absurd he hout
    · rename_i env rest hdrop
      have hpending : ∀ d ∈ env :: rest, d ∈ pending := fun d hd =>
        (List.dropWhile_suffix (!left.contains ·)).subset (hdrop ▸ hd)
      have henv : env ∈ left := mem_of_dropWhile_eq_cons hdrop
      by_cases heq : e = env
      · subst heq
        exact ⟨e, hpending e (by simp), he, .refl⟩
      · obtain ⟨d, hd, hleft, hde⟩ := ih (by simp [he, heq]) hout
        have hmem : ∀ c ∈ left.filter (· != env), c ∈ left := fun c => List.mem_of_mem_filter
        have hpath : Relation.ReflTransGen (h.RefersInto left) d e :=
          Relation.ReflTransGen.mono (fun _ b hab => ⟨hab.1, hmem b hab.2⟩) _ _ hde
        rcases List.mem_append.1 hd with hd | hd
        · -- the step from the handle taken out comes first
          exact ⟨env, hpending env (by simp), henv,
            .head ⟨mem_heapReferences.1 hd, hmem d hleft⟩ hpath⟩
        · exact ⟨d, hpending d (by simp [hd]), hmem d hleft, hpath⟩

lemma reaches_of_not_mem_unreached {h : Heap} {within starts : List Env} {e : Env}
    (he : e ∈ within) (hout : e ∉ h.unreached within starts) :
    ∃ d ∈ starts, d ∈ within ∧ Relation.ReflTransGen (h.RefersInto within) d e :=
  reaches_of_not_mem_unreachedWithin he hout

/-! ## Collections -/

lemma contains_collect {h : Heap} {roots : List Env} {e : Env} :
    (h.collect roots).2.contains e ↔ h.contains e ∧ e ∉ h.unreached h.live roots :=
  contains_reclaimAll

/-- A collection keeps the roots. -/
lemma contains_collect_of_mem {h : Heap} {roots : List Env} {e : Env} (he : h.contains e)
    (hroot : e ∈ roots) : (h.collect roots).2.contains e :=
  contains_collect.2 ⟨he, not_mem_unreached_of_mem hroot⟩

/-- Of the frames that a collection keeps, none has changed. -/
lemma frame?_collect {h : Heap} {roots : List Env} {e : Env}
    (he : (h.collect roots).2.contains e) : (h.collect roots).2.frame? e = h.frame? e := by
  have hkept := (contains_collect.1 he).2
  show (h.reclaimAll (h.unreached h.live roots)).frame? e = h.frame? e
  rw [frame?_reclaimAll, if_neg hkept]

lemma Sound.collect {h : Heap} (hs : h.Sound) (roots : List Env) : (h.collect roots).2.Sound := by
  refine hs.reclaimAll fun d e hde hd => ?_
  exact not_mem_unreached_of_refers (mem_live.2 (contains_of_refers hde)) hd hde

/-! ## Releases -/

lemma mem_release_fst {h : Heap} {candidates : List Env} {result : Value} {e : Env} :
    e ∈ (h.release candidates result).1 ↔
      e ∈ candidates ∧ e ∉ h.unreached candidates result.captured := by
  simp [release]

/-- A release takes the frames of the candidates that it does not keep. -/
lemma frame?_release (h : Heap) (candidates : List Env) (result : Value) (e : Env) :
    (h.release candidates result).2.frame? e =
      if e ∈ candidates ∧ e ∉ (h.release candidates result).1 then none else h.frame? e := by
  have hiff : e ∈ h.unreached candidates result.captured ↔
      e ∈ candidates ∧ e ∉ (h.release candidates result).1 := by
    rw [mem_release_fst]
    have := @mem_of_mem_unreached h candidates result.captured e
    tauto
  have hframe := frame?_reclaimAll h (h.unreached candidates result.captured) e
  simp only [hiff] at hframe
  exact hframe

lemma contains_release {h : Heap} {candidates : List Env} {result : Value} {e : Env} :
    (h.release candidates result).2.contains e ↔
      h.contains e ∧ (e ∈ candidates → e ∈ (h.release candidates result).1) := by
  simp only [contains, frame?_release]
  split
  · rename_i he
    simp [he.1, he.2]
  · rename_i he
    simp only [not_and, not_not] at he
    simpa using fun _ => he

/-- A release keeps the candidates that the result holds. -/
lemma mem_release_of_holds {h : Heap} {candidates : List Env} {result : Value} {e : Env}
    (he : e ∈ candidates) (hold : result.Holds e) : e ∈ (h.release candidates result).1 :=
  mem_release_fst.2 ⟨he, not_mem_unreached_of_mem (Value.mem_captured.2 hold)⟩

/-- A release keeps no candidate that the result does not reach through candidates. -/
lemma reaches_of_mem_release {h : Heap} {candidates : List Env} {result : Value} {e : Env}
    (he : e ∈ (h.release candidates result).1) :
    ∃ d, result.Holds d ∧ d ∈ candidates ∧
      Relation.ReflTransGen (h.RefersInto candidates) d e := by
  obtain ⟨hmem, hout⟩ := mem_release_fst.1 he
  obtain ⟨d, hd, hcandidate, hde⟩ := reaches_of_not_mem_unreached hmem hout
  exact ⟨d, Value.mem_captured.1 hd, hcandidate, hde⟩

/-- A release of candidates that no other frame refers to leaves a sound heap. -/
lemma Sound.release {h : Heap} (hs : h.Sound) {candidates : List Env} (result : Value)
    (houtside : ∀ d e, h.Refers d e → d ∉ candidates → e ∉ candidates) :
    (h.release candidates result).2.Sound := by
  refine hs.reclaimAll fun d e hde hd => ?_
  by_cases hc : d ∈ candidates
  · exact not_mem_unreached_of_refers hc hd hde
  · exact fun he => houtside d e hde hc (mem_of_mem_unreached he)

end Bhasha.Heap
