import Bhasha.Proofs.Machine.Relabelling

/-!
Environments with sets of names.

Whether a machine can be relabelled is a question of its names. Every environment is given a set of
names that can occur in it, such that no two of the set become one. The names of a frame are in the
set of its environment, and a name that the frame does not bind is in the set of the environment
around it, so that the search for a name goes the same way before and after. Closures carry
function literals, and these have to fit into the set of the environment of the closure.

A binding under a name of the set keeps this up, and so does a call, which chooses a set for the
environment it makes.
-/

namespace Bhasha

/-- The frame of an environment can be relabelled, given the sets of names of the environments. -/
structure Frame.Suits (ψ : Relabelling) (names : Env → Set String) (e : Env) (f : Frame) :
    Prop where
  injOn : Set.InjOn ψ.name (names e)
  mem_names : ∀ b ∈ f.bindings, b.1 ∈ names e
  fits : ∀ b ∈ f.bindings, ∀ lambda d, b.2.Carries lambda d → lambda.Fits ψ (names d)
  /-- A name that is not bound here can be looked for further out. -/
  mem_outer : ∀ n ∈ names e, f.get? n = none → ∀ p, f.parent = some p → n ∈ names p
  /-- A name that is bound nowhere stays the same. -/
  eq_self : ∀ n ∈ names e, f.get? n = none → f.parent = none → ψ.name n = n

namespace Machine

/-- All frames of the machine can be relabelled. -/
structure Suits (ψ : Relabelling) (names : Env → Set String) (m : Machine) : Prop where
  sound : m.heap.Sound
  frames : ∀ e f, m.heap.frame? e = some f → f.Suits ψ names e

/-- The closures that a result carries can be relabelled. -/
def Admits {α : Type} [Relabellable α] (ψ : Relabelling) (names : Env → Set String) (m : Machine)
    (a : α) : Prop :=
  ∀ lambda e, Relabellable.Carries a lambda e → m.heap.contains e ∧ lambda.Fits ψ (names e)

/-- The environment has a frame, and this is its set of names. -/
def HasScope (names : Env → Set String) (m : Machine) (env : Env) (scope : Set String) : Prop :=
  m.heap.contains env ∧ names env = scope

/-- Environments keep their frames and their sets of names. -/
def Keeps (names : Env → Set String) (m : Machine) (names' : Env → Set String) (m' : Machine) :
    Prop :=
  ∀ e, m.heap.contains e → m'.heap.contains e ∧ names' e = names e

variable {ψ : Relabelling} {names names₁ names₂ : Env → Set String} {m m₁ m₂ : Machine}
  {env : Env} {scope : Set String}

lemma Keeps.trans (h : Keeps names m names₁ m₁) (h' : Keeps names₁ m₁ names₂ m₂) :
    Keeps names m names₂ m₂ := by
  intro e he
  obtain ⟨he₁, heq₁⟩ := h e he
  obtain ⟨he₂, heq₂⟩ := h' e he₁
  exact ⟨he₂, heq₂.trans heq₁⟩

lemma Keeps.hasScope (h : Keeps names m names₁ m₁) (henv : HasScope names m env scope) :
    HasScope names₁ m₁ env scope := by
  obtain ⟨hlive, rfl⟩ := henv
  exact h env hlive

lemma Keeps.admits {α : Type} [Relabellable α] {a : α} (h : Keeps names m names₁ m₁)
    (ha : m.Admits ψ names a) : m₁.Admits ψ names₁ a := by
  intro lambda e hcarries
  obtain ⟨hlive, hfits⟩ := ha lambda e hcarries
  obtain ⟨hlive₁, heq⟩ := h e hlive
  exact ⟨hlive₁, heq ▸ hfits⟩

lemma admits_of_not_holds {v : Value} (h : ∀ e, ¬ v.Holds e) : m.Admits ψ names v :=
  Relabellable.carriesOnly_of_not_holds h

lemma Admits.contains {v : Value} (h : m.Admits ψ names v) {e : Env} (he : v.Holds e) :
    m.heap.contains e := by
  obtain ⟨lambda, hcarries⟩ := he.exists_carries
  exact (h lambda e hcarries).1

lemma Admits.contains_of_heldIn {vs : List Value} (h : m.Admits ψ names vs) {e : Env}
    (he : Eval.HeldIn vs e) : m.heap.contains e := by
  obtain ⟨v, hv, he⟩ := he
  obtain ⟨lambda, hcarries⟩ := he.exists_carries
  exact (h lambda e ⟨v, hv, hcarries⟩).1

lemma Admits.array {elements : List Value} (h : m.Admits ψ names elements) (id : ObjectId) :
    m.Admits ψ names (Value.array id elements) :=
  Relabellable.CarriesOnly.array h id

lemma Admits.cons {v : Value} {vs : List Value} (hv : m.Admits ψ names v)
    (hvs : m.Admits ψ names vs) : m.Admits ψ names (v :: vs) :=
  Relabellable.CarriesOnly.cons hv hvs

lemma Admits.some {v : Value} (h : m.Admits ψ names v) : m.Admits ψ names (Option.some v) :=
  Relabellable.CarriesOnly.some h

lemma Admits.getD {v : Option Value} (h : m.Admits ψ names v) :
    m.Admits ψ names (v.getD .null) :=
  Relabellable.CarriesOnly.getD h

/-- Names have the same values on both machines. -/
lemma Suits.get?_relabel (hm : m.Suits ψ names) (henv : HasScope names m env scope)
    {name : String} (hname : name ∈ scope) :
    (m.heap.relabel ψ).get? env (ψ.name name) = (m.heap.get? env name).map (Value.relabel ψ) := by
  have hwithin : ∀ (k : Nat) (e : Env), m.heap.contains e → name ∈ names e →
      (m.heap.relabel ψ).getWithin k e (ψ.name name) =
        (m.heap.getWithin k e name).map (Value.relabel ψ) := by
    intro k
    induction k with
    | zero => exact fun _ _ _ => rfl
    | succ k ih =>
      intro e he hname
      obtain ⟨f, hf⟩ := Heap.contains_iff.1 he
      have hsuits := hm.frames e f hf
      simp only [Heap.getWithin, Heap.frame?_relabel, hf, Option.map_some,
        Frame.get?_relabel hsuits.injOn hsuits.mem_names hname, Frame.parent_relabel]
      rcases hv : f.get? name with _ | v
      · rcases hp : f.parent with _ | p
        · rfl
        · exact ih p (hm.sound.closed e p ⟨f, hf, Or.inl hp⟩) (hsuits.mem_outer name hname hv p hp)
      · rfl
  have hsize : (m.heap.relabel ψ).slots.size = m.heap.slots.size := by simp [Heap.relabel]
  rw [Heap.get?, Heap.get?, hsize]
  exact hwithin _ env henv.1 (henv.2 ▸ hname)

/-- A name without a value is outside all function literals, where no name changes. -/
lemma Suits.name_eq_self (hm : m.Suits ψ names) (henv : HasScope names m env scope)
    {name : String} (hname : name ∈ scope) (hnone : m.heap.get? env name = none) :
    ψ.name name = name := by
  obtain ⟨n, hn⟩ := hm.sound.nested env henv.1
  have hin : name ∈ names env := henv.2 ▸ hname
  rw [hn.get?_eq] at hnone
  clear henv
  induction hn with
  | @outermost e f hf hp =>
    obtain ⟨hget, -⟩ := Heap.getWithin_succ_eq_none hf hnone
    exact (hm.frames e f hf).eq_self name hin hget hp
  | @inside n e p f hf hp _ ih =>
    obtain ⟨hget, hout⟩ := Heap.getWithin_succ_eq_none hf hnone
    exact ih (hout p hp) ((hm.frames e f hf).mem_outer name hin hget p hp)

lemma Suits.admits_get? (hm : m.Suits ψ names) {name : String} {v : Value}
    (hv : m.heap.get? env name = some v) : m.Admits ψ names v := by
  intro lambda e hcarries
  obtain ⟨d, f, hf, hmem⟩ := Heap.exists_frame_of_get? hv
  exact ⟨hm.sound.closed.contains_of_get? hv hcarries.holds,
    (hm.frames d f hf).fits _ hmem lambda e hcarries⟩

/-- Machines that differ in neither heap nor calls in progress. -/
lemma Suits.of_heap_eq (hm : m.Suits ψ names) (hheap : m₁.heap = m.heap) : m₁.Suits ψ names :=
  ⟨hheap ▸ hm.sound, hheap ▸ hm.frames⟩

/-- A binding under a name of the environment. -/
lemma Suits.define (hm : m.Suits ψ names) (henv : HasScope names m env scope) {name : String}
    (hname : name ∈ scope) {v : Value} (hv : m.Admits ψ names v) :
    Suits ψ names { m with heap := m.heap.set env name v } := by
  obtain ⟨-, rfl⟩ := henv
  refine ⟨hm.sound.set fun e he => hv.contains he, fun e f hf => ?_⟩
  rw [Heap.frame?_set] at hf
  split at hf
  · next heq =>
    subst heq
    obtain ⟨g, hg, rfl⟩ := Option.map_eq_some_iff.1 hf
    have hsuits := hm.frames e g hg
    have hget : ∀ n, (g.set name v).get? n = none → g.get? n = none := by
      intro n hn
      rw [Frame.get?_set] at hn
      split at hn
      · cases hn
      · exact hn
    refine ⟨hsuits.injOn, fun b hb => ?_, fun b hb lambda d hcarries => ?_,
      fun n hn hnone => hsuits.mem_outer n hn (hget n hnone),
      fun n hn hnone => hsuits.eq_self n hn (hget n hnone)⟩
    · rcases Frame.mem_rebind hb with hb | rfl
      · exact hsuits.mem_names b hb
      · exact hname
    · rcases Frame.mem_rebind hb with hb | rfl
      · exact hsuits.fits b hb lambda d hcarries
      · exact (hv lambda d hcarries).2
  · exact hm.frames e f hf

lemma Suits.set_relabel (hm : m.Suits ψ names) (henv : HasScope names m env scope)
    {name : String} (hname : name ∈ scope) (v : Value) :
    (m.heap.relabel ψ).set env (ψ.name name) (v.relabel ψ) =
      (m.heap.set env name v).relabel ψ := by
  obtain ⟨hlive, rfl⟩ := henv
  obtain ⟨f, hf⟩ := Heap.contains_iff.1 hlive
  have hsuits := hm.frames env f hf
  exact Heap.set_relabel hf hsuits.injOn hsuits.mem_names hname v

end Machine

/-! ## Calls -/

/-- The frame with parameters bound to arguments in order. -/
def Frame.bindAll (f : Frame) : List (Identifier × Value) → Frame
  | [] => f
  | (param, arg) :: rest => (f.set param.name arg).bindAll rest

namespace Frame

lemma parent_bindAll (f : Frame) (pairs : List (Identifier × Value)) :
    (f.bindAll pairs).parent = f.parent := by
  induction pairs generalizing f with
  | nil => rfl
  | cons pair rest ih => exact ih _

lemma mem_bindAll {f : Frame} {pairs : List (Identifier × Value)} {b : String × Value}
    (hb : b ∈ (f.bindAll pairs).bindings) :
    b ∈ f.bindings ∨ ∃ p ∈ pairs, b = (p.1.name, p.2) := by
  induction pairs generalizing f with
  | nil => exact Or.inl hb
  | cons pair rest ih =>
    rcases ih hb with hb | ⟨p, hp, rfl⟩
    · exact (mem_rebind hb).imp id fun heq => ⟨pair, by simp, heq⟩
    · exact Or.inr ⟨p, by simp [hp], rfl⟩

lemma get?_bindAll_eq_none {f : Frame} {pairs : List (Identifier × Value)} {n : String}
    (hn : (f.bindAll pairs).get? n = none) :
    f.get? n = none ∧ ∀ p ∈ pairs, p.1.name ≠ n := by
  induction pairs generalizing f with
  | nil => exact ⟨hn, by simp⟩
  | cons pair rest ih =>
    obtain ⟨hset, hrest⟩ := ih hn
    rw [get?_set] at hset
    split at hset
    · cases hset
    · next hne => exact ⟨hset, List.forall_mem_cons.2 ⟨fun heq => hne heq.symm, hrest⟩⟩

/-- Only the sets of the environments that a frame has to do with matter to it. -/
lemma Suits.congr {ψ : Relabelling} {names names' : Env → Set String} {e : Env} {f : Frame}
    (h : f.Suits ψ names e) (he : names' e = names e)
    (hrefs : ∀ d, f.Refers d → names' d = names d) : f.Suits ψ names' e where
  injOn := he ▸ h.injOn
  mem_names := he ▸ h.mem_names
  fits b hb lambda d hcarries := by
    rw [hrefs d (Or.inr ⟨b, hb, hcarries.holds⟩)]
    exact h.fits b hb lambda d hcarries
  mem_outer n hn hnone p hp := by
    rw [hrefs p (Or.inl hp)]
    exact h.mem_outer n (he ▸ hn) hnone p hp
  eq_self n hn hnone hp := h.eq_self n (he ▸ hn) hnone hp

end Frame

namespace Machine

variable {ψ : Relabelling} {names : Env → Set String} {m : Machine} {env : Env}
  {outer inner : Set String}

lemma frame?_bound {scope : Env} (pairs : List (Identifier × Value)) {f : Frame}
    (hf : m.heap.frame? scope = some f) :
    (Eval.bound scope pairs m).heap.frame? scope = some (f.bindAll pairs) := by
  induction pairs generalizing m f with
  | nil => exact hf
  | cons pair rest ih => exact ih (by simp [Heap.frame?_set, hf])

lemma bound_relabel {scope : Env} (hinj : Set.InjOn ψ.name inner)
    {pairs : List (Identifier × Value)} (hpairs : ∀ p ∈ pairs, p.1.name ∈ inner) {f : Frame}
    (hf : m.heap.frame? scope = some f) (hnames : ∀ b ∈ f.bindings, b.1 ∈ inner) :
    Eval.bound scope (pairs.map (Prod.map (Identifier.relabel ψ) (Value.relabel ψ))) (m.relabel ψ) =
      (Eval.bound scope pairs m).relabel ψ := by
  induction pairs generalizing m f with
  | nil => rfl
  | cons pair rest ih =>
    obtain ⟨param, arg⟩ := pair
    obtain ⟨hparam, hrest⟩ := List.forall_mem_cons.1 hpairs
    have hset : { m.relabel ψ with
        heap := (m.heap.relabel ψ).set scope (ψ.name param.name) (arg.relabel ψ) } =
          Machine.relabel ψ { m with heap := m.heap.set scope param.name arg } := by
      simp only [relabel, Heap.set_relabel hf hinj hnames hparam]
    refine (congrArg (Eval.bound scope _) hset).trans ?_
    refine ih hrest (f := f.set param.name arg) (by simp [Heap.frame?_set, hf]) fun b hb => ?_
    rcases Frame.mem_rebind hb with hb | rfl
    · exact hnames b hb
    · exact hparam

/-- The environment of a call gets the set of names that the function literal opens. -/
lemma Suits.enters (hm : m.Suits ψ names) (henv : HasScope names m env outer)
    {params : List Identifier} (hopens : ψ.Opens outer params inner) {args : List Value}
    (hlen : params.length = args.length) (hargs : m.Admits ψ names args) :
    (Eval.bound (Eval.entered env m).1 (params.zip args) (Eval.entered env m).2).Suits ψ
      (Function.update names (Eval.entered env m).1 inner) := by
  obtain ⟨hlive, rfl⟩ := henv
  have hin := Eval.enters_call hm.sound hlive params fun _ => hargs.contains_of_heldIn
  have hentered : (Eval.entered env m).2.heap.frame? (Eval.entered env m).1 =
      some { parent := some env } := by rw [frame?_entered hm.sound.wellFormed, if_pos rfl]
  have hbound := frame?_bound (params.zip args) hentered
  set scope := (Eval.entered env m).1
  -- the environments there were have their old sets
  have hold : ∀ e, m.heap.contains e → Function.update names scope inner e = names e := by
    intro e he
    refine Function.update_of_ne ?_ _ _
    rintro rfl
    exact hin.fresh he
  refine ⟨hin.sound, fun e f hf => ?_⟩
  by_cases he : e = scope
  · -- the new environment binds the parameters, and what it does not bind is found around it
    subst he
    rw [hbound, Option.some.injEq] at hf
    subst hf
    refine ⟨?_, fun b hb => ?_, fun b hb lambda d hcarries => ?_, fun n hn hnone p hp => ?_,
      fun n hn hnone hp => ?_⟩
    · rw [Function.update_self]
      exact hopens.injOn
    · rw [Function.update_self]
      obtain hb | ⟨p, hp, rfl⟩ := Frame.mem_bindAll hb
      · cases hb
      · exact hopens.params_mem p.1 (List.of_mem_zip hp).1
    · obtain hb | ⟨p, hp, rfl⟩ := Frame.mem_bindAll hb
      · cases hb
      · obtain ⟨hd, hfits⟩ := hargs lambda d ⟨p.2, (List.of_mem_zip hp).2, hcarries⟩
        rw [hold d hd]
        exact hfits
    · rw [Frame.parent_bindAll] at hp
      obtain rfl : env = p := by simpa using hp
      rw [Function.update_self] at hn
      rw [hold env hlive]
      refine hopens.mem_outer n hn fun id hid => ?_
      -- every parameter has an argument
      rw [← List.map_fst_zip hlen.le] at hid
      obtain ⟨p, hp, rfl⟩ := List.mem_map.1 hid
      exact (Frame.get?_bindAll_eq_none hnone).2 p hp
    · rw [Frame.parent_bindAll] at hp
      cases hp
  · rw [hin.frames e he] at hf
    refine (hm.frames e f hf).congr (hold e (Heap.contains_of_frame? hf)) fun d hd => ?_
    exact hold d (hm.sound.closed e d ⟨f, hf, hd⟩)

end Machine

end Bhasha
