import Bhasha.Proofs.Machine.Renaming

/-!
Two machines with the same frames under other names.

When frames are given back at different times, two runs of one program put their frames into
different slots, and one of them keeps frames that the other has no longer. What the program can
still reach is the same on both machines, up to a renaming of handles. The second run may also
have begun later, on a machine that has made objects before, and further in, so that what are
outermost frames in the first run lie inside an empty one in the second. A program can tell neither.

`Machine.Mirrors` states that two machines are the same in this sense. It is kept when the same
binding is made on both and when both begin a call. When both give frames back, each in its own way,
it is kept on the frames that both have left. `Machine.Matches` is the case that nothing differs
but the names of frames.
-/

namespace Bhasha

/-! ## Machines that mirror each other -/

/-- What the second of two machines has beyond the first: its objects are numbered further on, and
its outermost frames may lie inside another one. -/
structure Setting where
  /-- How much further objects are numbered. -/
  shift : Nat := 0
  /-- The environment around the outermost frames. -/
  outer : Option Env := none

/-- The renamed handles have the same frames on both machines, up to the setting of the second. -/
structure Machine.Mirrors (κ : Setting) (π : Renaming) (m m' : Machine) : Prop where
  sound : m.heap.Sound
  sound' : m'.heap.Sound
  injOn : Set.InjOn π.map π.dom
  frames : ∀ e ∈ π.dom, ∃ f, m.heap.frame? e = some f ∧
    m'.heap.frame? (π.map e) = some (f.transfer κ.shift κ.outer π.map) ∧
      ∀ d, f.Refers d → d ∈ π.dom
  /-- The environment around the outermost frames binds nothing, and it is none of them. -/
  outer : ∀ o ∈ κ.outer, m'.heap.frame? o = some {} ∧ ∀ e ∈ π.dom, π.map e ≠ o
  nextObject : m'.nextObject = m.nextObject + κ.shift
  /-- What was printed has the same text. -/
  printed : m'.printed.toList.map Value.render = m.printed.toList.map Value.render

namespace Machine

variable {κ : Setting} {π : Renaming} {m m' : Machine}

lemma Mirrors.contains (hm : m.Mirrors κ π m') {e : Env} (he : e ∈ π.dom) : m.heap.contains e := by
  obtain ⟨f, hf, -, -⟩ := hm.frames e he
  exact Heap.contains_of_frame? hf

lemma Mirrors.contains_map (hm : m.Mirrors κ π m') {e : Env} (he : e ∈ π.dom) :
    m'.heap.contains (π.map e) := by
  obtain ⟨f, -, hf, -⟩ := hm.frames e he
  exact Heap.contains_of_frame? hf

lemma Mirrors.frame?_map (hm : m.Mirrors κ π m') {e : Env} (he : e ∈ π.dom) {f : Frame}
    (hf : m.heap.frame? e = some f) :
    m'.heap.frame? (π.map e) = some (f.transfer κ.shift κ.outer π.map) ∧
      ∀ d, f.Refers d → d ∈ π.dom := by
  obtain ⟨g, hg, hframe⟩ := hm.frames e he
  obtain rfl : g = f := Option.some.inj (hg.symm.trans hf)
  exact hframe

/-- Machines that differ from these in neither heap nor printed text. -/
lemma Mirrors.of_heap_eq (hm : m.Mirrors κ π m') {n n' : Machine} (hheap : n.heap = m.heap)
    (hheap' : n'.heap = m'.heap) (hnext : n'.nextObject = n.nextObject + κ.shift)
    (hprinted : n'.printed.toList.map Value.render = n.printed.toList.map Value.render) :
    n.Mirrors κ π n' where
  sound := hheap ▸ hm.sound
  sound' := hheap' ▸ hm.sound'
  injOn := hm.injOn
  frames := by rw [hheap, hheap']; exact hm.frames
  outer := by rw [hheap']; exact hm.outer
  nextObject := hnext
  printed := hprinted

/-- Nothing is found around the outermost frames. -/
lemma Mirrors.get?_outer (hm : m.Mirrors κ π m') (name : String) :
    κ.outer.bind (m'.heap.get? · name) = none := by
  rcases ho : κ.outer with _ | o
  · rfl
  · rw [Option.bind_some, hm.sound'.get?_eq (hm.outer o ho).1]
    rfl

/-- Names have the same values on both machines. -/
lemma Mirrors.transfers_get? (hm : m.Mirrors κ π m') {e : Env} (he : e ∈ π.dom) (name : String) :
    π.Transfers κ.shift (m.heap.get? e name) (m'.heap.get? (π.map e) name) := by
  -- a name is bound in both frames or in neither, so it is enough to look further out
  have hstep : ∀ {e f}, e ∈ π.dom → m.heap.frame? e = some f →
      π.Transfers κ.shift (f.parent.bind (m.heap.get? · name))
        (((f.parent.map π.map).or κ.outer).bind (m'.heap.get? · name)) →
      π.Transfers κ.shift (m.heap.get? e name) (m'.heap.get? (π.map e) name) := by
    intro e f he hf hparent
    obtain ⟨hf', hrefs⟩ := hm.frame?_map he hf
    rw [hm.sound.get?_eq hf, hm.sound'.get?_eq hf', Frame.get?_transfer]
    rcases hv : f.get? name with _ | v
    · exact hparent
    · exact Renaming.Transfers.some
        ⟨fun d hd => hrefs d (Or.inr ⟨(name, v), Frame.mem_of_get? hv, hd⟩), rfl⟩
  obtain ⟨n, hn⟩ := hm.sound.nested e (hm.contains he)
  induction hn with
  | outermost hf hp =>
    refine hstep he hf ?_
    simpa [hp, hm.get?_outer name] using Renaming.transfers_none
  | inside hf hp _ ih =>
    refine hstep he hf ?_
    simpa [hp] using ih ((hm.frame?_map he hf).2 _ (Or.inl hp))

/-- Machines mirror each other after the same binding. -/
lemma Mirrors.define (hm : m.Mirrors κ π m') {e e' : Env} (he : π.Transfers κ.shift e e')
    (name : String) {v v' : Value} (hv : π.Transfers κ.shift v v') :
    Mirrors κ π { m with heap := m.heap.set e name v }
      { m' with heap := m'.heap.set e' name v' } := by
  have hdom : e ∈ π.dom := he.1 e rfl
  obtain rfl : e' = π.map e := he.2
  obtain rfl : v' = v.transfer κ.shift π.map := hv.2
  refine ⟨hm.sound.set fun d hd => hm.contains (hv.1 d hd), hm.sound'.set fun d hd => ?_, hm.injOn,
    fun d hd => ?_, fun o ho => ?_, hm.nextObject, hm.printed⟩
  · obtain ⟨c, hc, rfl⟩ := Value.exists_holds_of_holds_transfer hd
    exact hm.contains_map (hv.1 c hc)
  · obtain ⟨f, hf, hf', hrefs⟩ := hm.frames d hd
    by_cases hde : d = e
    · subst hde
      refine ⟨f.set name v, by simp [Heap.frame?_set, hf], ?_, fun c hc => ?_⟩
      · simp [Heap.frame?_set, hf', Frame.set_transfer]
      · rcases Frame.refers_set hc with hc | hc
        · exact hrefs c hc
        · exact hv.1 c hc
    · have hne : π.map d ≠ π.map e := fun heq => hde (hm.injOn hd hdom heq)
      exact ⟨f, by simp [Heap.frame?_set, hde, hf], by simp [Heap.frame?_set, hne, hf'], hrefs⟩
  · obtain ⟨hempty, hother⟩ := hm.outer o ho
    exact ⟨by simp [Heap.frame?_set, (hother e hdom).symm, hempty], hother⟩

/-- Machines mirror each other after a new frame was made inside the same environment on both. -/
lemma Mirrors.entered (hm : m.Mirrors κ π m') {e e' : Env} (he : π.Transfers κ.shift e e') :
    ∃ ρ, π ≤ ρ ∧ (Eval.entered e m).2.Mirrors κ ρ (Eval.entered e' m').2 ∧
      ρ.Transfers κ.shift (Eval.entered e m).1 (Eval.entered e' m').1 := by
  have hdom : e ∈ π.dom := he.1 e rfl
  obtain rfl : e' = π.map e := he.2
  have hin := enters_entered hm.sound (hm.contains hdom)
  have hin' := enters_entered hm.sound' (hm.contains_map hdom)
  set scope := (Eval.entered e m).1 with hscope
  set scope' := (Eval.entered (π.map e) m').1 with hscope'
  -- the new handle is new on both sides, so the renaming can send one to the other
  have hnew : ∀ d ∈ π.dom, d ≠ scope := by
    rintro d hd rfl
    exact hin.fresh (hm.contains hd)
  have hfresh' : ∀ d, m'.heap.contains d → d ≠ scope' := by
    rintro d hd rfl
    exact hin'.fresh hd
  have hnew' : ∀ d ∈ π.dom, π.map d ≠ scope' := fun d hd => hfresh' _ (hm.contains_map hd)
  let ρ : Renaming := ⟨insert scope π.dom, Function.update π.map scope scope'⟩
  have hmap : ∀ d ∈ π.dom, ρ.map d = π.map d := fun d hd =>
    Function.update_of_ne (hnew d hd) _ _
  have hmapScope : ρ.map scope = scope' := Function.update_self _ _ _
  refine ⟨ρ, ⟨fun d hd => Or.inr hd, hmap⟩, ⟨hin.sound, hin'.sound, ?_, ?_, ?_, hm.nextObject,
    hm.printed⟩, ⟨fun d hd => Or.inl hd, hmapScope.symm⟩⟩
  · rintro c (rfl | hc) d (rfl | hd) heq
    · rfl
    · rw [hmapScope, hmap d hd] at heq
      exact absurd heq.symm (hnew' d hd)
    · rw [hmapScope, hmap c hc] at heq
      exact absurd heq (hnew' c hc)
    · rw [hmap c hc, hmap d hd] at heq
      exact hm.injOn hc hd heq
  · rintro d (rfl | hd)
    · refine ⟨{ parent := some e }, by rw [frame?_entered hm.sound.wellFormed, if_pos rfl], ?_, ?_⟩
      · rw [hmapScope, frame?_entered hm.sound'.wellFormed, if_pos rfl]
        simp [Frame.transfer, hmap e hdom]
      · rintro c (hc | ⟨b, hb, -⟩)
        · obtain rfl : e = c := by simpa using hc
          exact Or.inr hdom
        · exact absurd hb (by simp)
    · obtain ⟨f, hf, hf', hrefs⟩ := hm.frames d hd
      refine ⟨f, by rw [hin.frames d (hnew d hd), hf], ?_, fun c hc => Or.inr (hrefs c hc)⟩
      rw [hmap d hd, hin'.frames _ (hnew' d hd), hf',
        Frame.transfer_congr fun c hc => (hmap c (hrefs c hc)).symm]
  · intro o ho
    obtain ⟨hempty, hother⟩ := hm.outer o ho
    have hne : o ≠ scope' := hfresh' o (Heap.contains_of_frame? hempty)
    refine ⟨by rw [hin'.frames o hne, hempty], ?_⟩
    rintro d (rfl | hd)
    · rw [hmapScope]
      exact hne.symm
    · rw [hmap d hd]
      exact hother d hd

/-- Machines mirror each other after the same parameters were bound. -/
lemma Mirrors.bound {scope scope' : Env} (hscope : π.Transfers κ.shift scope scope')
    (params : List Identifier) {args args' : List Value} (hm : m.Mirrors κ π m')
    (hargs : π.Transfers κ.shift args args') :
    (Eval.bound scope (params.zip args) m).Mirrors κ π
      (Eval.bound scope' (params.zip args') m') := by
  induction params generalizing args args' m m' with
  | nil => exact hm
  | cons param params ih =>
    cases args with
    | nil =>
      obtain rfl : args' = [] := hargs.2
      exact hm
    | cons arg args =>
      obtain rfl : args' = arg.transfer κ.shift π.map :: args.map (Value.transfer κ.shift π.map) :=
        hargs.2
      refine ih (hm.define hscope param.name ⟨fun e he => ?_, rfl⟩) ⟨fun e he => ?_, rfl⟩
      · exact hargs.1 e ⟨arg, by simp, he⟩
      · obtain ⟨w, hw, he⟩ := he
        exact hargs.1 e ⟨w, by simp [hw], he⟩

/-- Machines still mirror each other after each has given frames back, on the frames that both have
kept. -/
lemma Mirrors.restrict (hm : m.Mirrors κ π m') {n n' : Machine} (hsound : n.heap.Sound)
    (hsound' : n'.heap.Sound)
    (hkept : ∀ e, n.heap.contains e → n.heap.frame? e = m.heap.frame? e)
    (hkept' : ∀ e, n'.heap.contains e → n'.heap.frame? e = m'.heap.frame? e)
    (houter : ∀ o ∈ κ.outer, n'.heap.contains o)
    (hnext : n'.nextObject = n.nextObject + κ.shift)
    (hprinted : n'.printed.toList.map Value.render = n.printed.toList.map Value.render) :
    n.Mirrors κ ⟨{e ∈ π.dom | n.heap.contains e ∧ n'.heap.contains (π.map e)}, π.map⟩ n' where
  sound := hsound
  sound' := hsound'
  injOn := hm.injOn.mono fun _ he => he.1
  frames := by
    rintro e ⟨he, hlive, hlive'⟩
    obtain ⟨f, hf, hf', hrefs⟩ := hm.frames e he
    have hn : n.heap.frame? e = some f := (hkept e hlive).trans hf
    have hn' : n'.heap.frame? (π.map e) = some (f.transfer κ.shift κ.outer π.map) :=
      (hkept' _ hlive').trans hf'
    refine ⟨f, hn, hn', fun d hd => ⟨hrefs d hd, ?_, ?_⟩⟩
    · exact hsound.closed e d ⟨f, hn, hd⟩
    · exact hsound'.closed _ _ ⟨_, hn', hd.transfer⟩
  outer o ho := by
    obtain ⟨hempty, hother⟩ := hm.outer o ho
    exact ⟨(hkept' o (houter o ho)).trans hempty, fun e he => hother e he.1⟩
  nextObject := hnext
  printed := hprinted

lemma Mirrors.mem_dom_of_reaches (hm : m.Mirrors κ π m') {d e : Env} (hd : d ∈ π.dom)
    (hde : Relation.ReflTransGen m.heap.Refers d e) : e ∈ π.dom := by
  induction hde with
  | refl => exact hd
  | tail _ hce ih =>
    obtain ⟨f, hf, he⟩ := hce
    exact (hm.frame?_map ih hf).2 _ he

lemma Mirrors.takePrinted (hm : m.Mirrors κ π m') : m'.takePrinted.1 = m.takePrinted.1 := by
  have hlines : ∀ vs : List Value,
      vs.map (·.render ++ "\n") = (vs.map Value.render).map (· ++ "\n") := fun vs => by
    rw [List.map_map]
    rfl
  show Text.concat (m'.printed.toList.map (·.render ++ "\n")) =
    Text.concat (m.printed.toList.map (·.render ++ "\n"))
  rw [hlines, hlines, hm.printed]

end Machine

/-- The renamed handles have the same frames on both machines, up to the renaming. -/
abbrev Machine.Matches (π : Renaming) (m m' : Machine) : Prop :=
  m.Mirrors {} π m'

end Bhasha
