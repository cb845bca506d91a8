import Bhasha.Proofs.Heap.Search
import Bhasha.Proofs.Machine.Outcome

/-!
What an evaluation can do to a machine.

An evaluation in an environment binds names there and nowhere else; calls bind names in frames of
their own. So the frames there were stay as they are, the environment's own apart, and those that
the calls in progress have made since are exactly the ones they have noted. This is what makes it
safe to give the frames of a call back as soon as it ends: of the frames that stay, only those of
the call itself can refer to a frame of the call, and the result is all that is handed on.

The relation `Machine.Evolves` states this for two machines, under both policies. The main result
is `Machine.Enters.evolves_released`: a whole call leads to such a machine.
-/

namespace Bhasha

namespace Machine

/-- What an evaluation in an environment makes of a machine. -/
structure Evolves (policy : ReleasePolicy) (env : Env) (m m' : Machine) : Prop where
  sound : m'.heap.Sound
  /-- Frames stay, and only that of the environment itself gets new bindings. -/
  frames : ∀ e f, m.heap.frame? e = some f →
    ∃ f', m'.heap.frame? e = some f' ∧ f'.parent = f.parent ∧ (e ≠ env → f' = f)
  /-- The calls in progress have noted new frames only, and during a call all of them. -/
  calls : ∃ made : List Env, m'.callFrames.toList = m.callFrames.toList ++ made ∧
    (∀ e ∈ made, ¬ m.heap.contains e) ∧
    (m.callFrames.toList ≠ [] → ∀ e, m'.heap.contains e → m.heap.contains e ∨ e ∈ made)
  /-- Outside of calls no frame is noted. -/
  settled : policy = .eager → m.callFrames.toList = [] → m'.callFrames.toList = []

variable {policy : ReleasePolicy} {env : Env} {m m' m₁ m₂ : Machine}

lemma Evolves.contains (h : m.Evolves policy env m') {e : Env} (he : m.heap.contains e) :
    m'.heap.contains e := by
  obtain ⟨f, hf⟩ := Heap.contains_iff.1 he
  obtain ⟨f', hf', -, -⟩ := h.frames e f hf
  exact Heap.contains_of_frame? hf'

/-- A machine with the same heap and the same calls in progress. -/
lemma Evolves.of_eq (hs : m.heap.Sound) (hheap : m'.heap = m.heap)
    (hcalls : m'.callFrames = m.callFrames) : m.Evolves policy env m' where
  sound := hheap ▸ hs
  frames e f hf := ⟨f, hheap ▸ hf, rfl, fun _ => rfl⟩
  calls := ⟨[], by simp [hcalls], by simp, fun _ e he => Or.inl (hheap ▸ he)⟩
  settled _ hm := hcalls ▸ hm

lemma Evolves.refl (hs : m.heap.Sound) : m.Evolves policy env m :=
  .of_eq hs rfl rfl

lemma Evolves.trans (h₁ : m.Evolves policy env m₁) (h₂ : m₁.Evolves policy env m₂) :
    m.Evolves policy env m₂ := by
  obtain ⟨made₁, hcalls₁, hnew₁, hall₁⟩ := h₁.calls
  obtain ⟨made₂, hcalls₂, hnew₂, hall₂⟩ := h₂.calls
  refine ⟨h₂.sound, fun e f hf => ?_, ⟨made₁ ++ made₂, ?_, ?_, ?_⟩, ?_⟩
  · obtain ⟨f₁, hf₁, hp₁, heq₁⟩ := h₁.frames e f hf
    obtain ⟨f₂, hf₂, hp₂, heq₂⟩ := h₂.frames e f₁ hf₁
    exact ⟨f₂, hf₂, hp₂.trans hp₁, fun he => (heq₂ he).trans (heq₁ he)⟩
  · rw [hcalls₂, hcalls₁, List.append_assoc]
  · intro e he hlive
    rcases List.mem_append.1 he with he | he
    · exact hnew₁ e he hlive
    · exact hnew₂ e he (h₁.contains hlive)
  · intro hcalled e he
    rcases hall₂ (by simp [hcalls₁, hcalled]) e he with he | he
    · exact (hall₁ hcalled e he).imp id (by simp +contextual)
    · exact Or.inr (by simp [he])
  · exact fun hp hm => h₂.settled hp (h₁.settled hp hm)

/-- A binding in the environment itself. -/
lemma Evolves.define (hs : m.heap.Sound) {name : String} {v : Value}
    (hv : ∀ e, v.Holds e → m.heap.contains e) :
    m.Evolves policy env { m with heap := m.heap.set env name v } where
  sound := hs.set hv
  frames e f hf := by
    simp only [Heap.frame?_set]
    by_cases he : e = env
    · subst he
      exact ⟨f.set name v, by simp [hf], rfl, fun hne => absurd rfl hne⟩
    · exact ⟨f, by simp [he, hf], rfl, fun _ => rfl⟩
  calls := ⟨[], by simp, by simp, fun _ e he => Or.inl (by simpa using he)⟩
  settled _ hm := hm

/-! ## Entering and leaving a call -/

/-- A machine on which a call has begun: one frame more, noted as the last. -/
structure Enters (m : Machine) (scope : Env) (m' : Machine) : Prop where
  fresh : ¬ m.heap.contains scope
  sound : m'.heap.Sound
  contains_scope : m'.heap.contains scope
  frames : ∀ e, e ≠ scope → m'.heap.frame? e = m.heap.frame? e
  calls : m'.callFrames.toList = m.callFrames.toList ++ [scope]

lemma frame?_entered (hw : m.heap.WellFormed) (e : Env) :
    (Eval.entered env m).2.heap.frame? e =
      if e = (Eval.entered env m).1 then some { parent := some env } else m.heap.frame? e :=
  Heap.frame?_allocate hw (some env) e

lemma enters_entered (hs : m.heap.Sound) (henv : m.heap.contains env) :
    m.Enters (Eval.entered env m).1 (Eval.entered env m).2 where
  fresh := Heap.not_contains_of_frame? (Heap.frame?_allocate_fst hs.wellFormed _)
  sound := hs.allocate fun p hp => by
    obtain rfl : env = p := by simpa using hp
    exact henv
  contains_scope := Heap.contains_of_frame? (by rw [frame?_entered hs.wellFormed, if_pos rfl])
  frames e he := by rw [frame?_entered hs.wellFormed, if_neg he]
  calls := by simp [Eval.entered]

lemma Enters.bound {scope : Env} {pairs : List (Identifier × Value)} (h : m.Enters scope m')
    (hargs : ∀ p ∈ pairs, ∀ e, p.2.Holds e → m'.heap.contains e) :
    m.Enters scope (Eval.bound scope pairs m') := by
  induction pairs generalizing m' with
  | nil => exact h
  | cons pair rest ih =>
    obtain ⟨param, arg⟩ := pair
    refine ih ⟨h.fresh, h.sound.set (hargs (param, arg) (by simp)), ?_, fun e he => ?_, h.calls⟩ ?_
    · simpa using h.contains_scope
    · simp [Heap.frame?_set, he, h.frames e he]
    · intro p hp e he
      simpa using hargs p (by simp [hp]) e he

lemma Enters.contains {scope : Env} (h : m.Enters scope m') {e : Env} :
    m'.heap.contains e ↔ m.heap.contains e ∨ e = scope := by
  by_cases he : e = scope
  · simp [he, h.contains_scope]
  · simp [he, Heap.contains, h.frames e he]

/-- A frame that was there when a call began is the same when its body has ended. -/
lemma Enters.frame?_of_evolves {scope : Env} (hin : m.Enters scope m₁)
    (hbody : m₁.Evolves policy scope m₂) {e : Env} {f : Frame} (hf : m.heap.frame? e = some f) :
    m₂.heap.frame? e = some f := by
  have hne : e ≠ scope := by
    rintro rfl
    exact hin.fresh (Heap.contains_of_frame? hf)
  obtain ⟨f', hf', -, heq⟩ := hbody.frames e f (by rw [hin.frames e hne, hf])
  rw [hf', heq hne]

/-- Of the frames that are left when a call has given its frames back, none has changed. -/
lemma frame?_released {mark : Nat} {result : Value} {e : Env}
    (he : (Eval.released policy mark result m).heap.contains e) :
    (Eval.released policy mark result m).heap.frame? e = m.heap.frame? e := by
  cases policy with
  | deferred => rfl
  | eager =>
    have hkept := (Heap.contains_release.1 he).2
    show (m.heap.release _ result).2.frame? e = _
    rw [Heap.frame?_release, if_neg]
    exact fun hc => hc.2 (hkept hc.1)

lemma wellFormed_released (hw : m.heap.WellFormed) (policy : ReleasePolicy) (mark : Nat)
    (result : Value) : (Eval.released policy mark result m).heap.WellFormed := by
  cases policy with
  | deferred => exact hw
  | eager => exact hw.reclaimAll _

@[simp] lemma nextObject_released (policy : ReleasePolicy) (mark : Nat) (result : Value)
    (m : Machine) : (Eval.released policy mark result m).nextObject = m.nextObject := by
  cases policy <;> rfl

@[simp] lemma printed_released (policy : ReleasePolicy) (mark : Nat) (result : Value)
    (m : Machine) : (Eval.released policy mark result m).printed = m.printed := by
  cases policy <;> rfl

/-- The frames that a call has made are those noted since it began, as far as they are left when its
body has ended. None of them was there before. -/
lemma Enters.exists_made {scope : Env} (hin : m.Enters scope m₁)
    (hbody : m₁.Evolves policy scope m₂) :
    ∃ made : List Env, m₂.callFrames.toList = m.callFrames.toList ++ made ∧
      (∀ e ∈ made, ¬ m.heap.contains e) ∧
        ∀ e, m₂.heap.contains e → m.heap.contains e ∨ e ∈ made := by
  obtain ⟨made, hcalls, hnew, hall⟩ := hbody.calls
  refine ⟨scope :: made, ?_, fun e he hlive => ?_, fun e he => ?_⟩
  · rw [hcalls, hin.calls, List.append_assoc]
    rfl
  · rcases List.mem_cons.1 he with rfl | he
    · exact hin.fresh hlive
    · exact hnew e he (hin.contains.2 (Or.inl hlive))
  · rcases hall (by simp [hin.calls]) e he with he | he
    · exact (hin.contains.1 he).imp id (by simp +contextual)
    · exact Or.inr (by simp [he])

lemma drop_callFrames {made : List Env}
    (hcalls : m₂.callFrames.toList = m.callFrames.toList ++ made) :
    m₂.callFrames.toList.drop m.callFrames.size = made := by
  rw [hcalls, List.drop_append_of_le_length (by simp)]
  simp

lemma take_callFrames {made : List Env}
    (hcalls : m₂.callFrames.toList = m.callFrames.toList ++ made) :
    m₂.callFrames.toList.take m.callFrames.size = m.callFrames.toList := by
  rw [hcalls, List.take_append_of_le_length (by simp)]
  exact List.take_of_length_le (by simp)

/-- What becomes of a machine in a whole call: its frames stay untouched, and what the result
holds outlives the call. -/
lemma Enters.evolves_released {scope : Env} (hin : m.Enters scope m₁)
    (hclosed : m.heap.Closed) (hbody : m₁.Evolves policy scope m₂) {result : Value}
    (hresult : ∀ e, result.Holds e → m₂.heap.contains e) :
    m.Evolves policy env (Eval.released policy m.callFrames.size result m₂) ∧
      ∀ e, result.Holds e →
        (Eval.released policy m.callFrames.size result m₂).heap.contains e := by
  obtain ⟨made, hcalls, hyoung, hlive⟩ := hin.exists_made hbody
  cases policy with
  | deferred =>
    refine ⟨⟨hbody.sound, fun e f hf => ⟨f, hin.frame?_of_evolves hbody hf, rfl, fun _ => rfl⟩,
      ⟨made, hcalls, hyoung, fun _ => hlive⟩, by simp⟩, hresult⟩
  | eager =>
    simp only [Eval.released, drop_callFrames hcalls, take_callFrames hcalls]
    -- an older frame is as it was, so it refers to older frames only
    have houtside : ∀ d e, m₂.heap.Refers d e → d ∉ made → e ∉ made := by
      rintro d e ⟨f, hf, hde⟩ hd he
      have hold : m.heap.contains d := (hlive d (Heap.contains_of_frame? hf)).resolve_right hd
      obtain ⟨g, hg⟩ := Heap.contains_iff.1 hold
      rw [hin.frame?_of_evolves hbody hg, Option.some.injEq] at hf
      subst hf
      exact hyoung e he (hclosed d e ⟨g, hg, hde⟩)
    refine ⟨⟨hbody.sound.release result houtside, fun e f hf => ⟨f, ?_, rfl, fun _ => rfl⟩,
      ?_, ?_⟩, fun e he => ?_⟩
    · rw [Heap.frame?_release, if_neg, hin.frame?_of_evolves hbody hf]
      exact fun hc => hyoung e hc.1 (Heap.contains_of_frame? hf)
    · by_cases hmark : m.callFrames.size = 0
      · have hnil : m.callFrames.toList = [] := by simpa using hmark
        exact ⟨[], by simp [hmark, hnil], by simp, fun hne => absurd hnil hne⟩
      · refine ⟨(m₂.heap.release made result).1, by simp [hmark], fun e he => ?_,
          fun _ e he => ?_⟩
        · exact hyoung e (Heap.mem_release_fst.1 he).1
        · obtain ⟨he, hkept⟩ := Heap.contains_release.1 he
          exact (hlive e he).imp id hkept
    · intro _ hnil
      have hmark : m.callFrames.size = 0 := by simpa using hnil
      simp [hmark]
    · exact Heap.contains_release.2
        ⟨hresult e he, fun hc => Heap.mem_release_of_holds hc he⟩

end Machine

end Bhasha
