import Bhasha.Proofs.Machine.Closures
import Bhasha.Proofs.Tree.Relabelling

/-!
Machines with other marks.

Closures keep function literals, so trees lie about on a machine: in the values that were printed,
in the values that frames bind, and in the results that evaluations hand on. All of it can be
relabelled. A relabelled machine has its frames in the same slots, and a frame refers to the same
environments; only bindings have other names and values. So making frames and giving them back is
the same on both machines. Binding a name and looking it up is the same as long as no two names of
a frame become one.
-/

namespace Bhasha

/-! ## Values -/

namespace Value

/-- The value carries a closure: it is that closure, or an array with an element that carries it. -/
inductive Carries : Value → Lambda → Env → Prop
  | closure {id : ObjectId} {lambda : Lambda} {env : Env} :
      Carries (.closure id lambda env) lambda env
  | element {id : ObjectId} {elements : List Value} {v : Value} {lambda : Lambda} {env : Env} :
      v ∈ elements → Carries v lambda env → Carries (.array id elements) lambda env

lemma Carries.holds {v : Value} {lambda : Lambda} {env : Env} (h : v.Carries lambda env) :
    v.Holds env := by
  induction h with
  | closure => exact .closure
  | element hv _ ih => exact .element hv ih

lemma Holds.exists_carries {v : Value} {env : Env} (h : v.Holds env) :
    ∃ lambda, v.Carries lambda env := by
  induction h with
  | @closure _ lambda _ => exact ⟨lambda, .closure⟩
  | element hv _ ih =>
    obtain ⟨lambda, hcarries⟩ := ih
    exact ⟨lambda, .element hv hcarries⟩

/-- The value with other marks in the function literals of its closures. -/
abbrev relabel (ψ : Relabelling) : Value → Value :=
  mapParts id (Lambda.relabel ψ) id

variable {ψ : Relabelling}

lemma relabel_getD (v : Option Value) :
    (v.map (relabel ψ)).getD .null = (v.getD .null).relabel ψ := by
  cases v <;> rfl

end Value

/-! ## Frames -/

namespace Frame

variable {ψ : Relabelling}

/-- The frame with other names and values. -/
def relabel (ψ : Relabelling) (f : Frame) : Frame where
  bindings := f.bindings.map fun b => (ψ.name b.1, b.2.relabel ψ)
  parent := f.parent

@[simp] lemma parent_relabel (f : Frame) : (f.relabel ψ).parent = f.parent := rfl

@[simp] lemma references_relabel (f : Frame) : (f.relabel ψ).references = f.references := by
  simp [references, relabel, List.flatMap_map]

/-- A name is bound after relabelling as it was before. -/
lemma get?_relabel {f : Frame} {scope : Set String} (hinj : Set.InjOn ψ.name scope)
    (hf : ∀ b ∈ f.bindings, b.1 ∈ scope) {name : String} (hname : name ∈ scope) :
    (f.relabel ψ).get? (ψ.name name) = (f.get? name).map (Value.relabel ψ) := by
  obtain ⟨bindings, parent⟩ := f
  simp only [get?, relabel]
  induction bindings with
  | nil => rfl
  | cons b bs ih =>
    obtain ⟨hb, hbs⟩ := List.forall_mem_cons.1 hf
    have heq : (ψ.name name == ψ.name b.1) = (name == b.1) := by
      rw [Bool.eq_iff_iff, beq_iff_eq, beq_iff_eq]
      exact ⟨fun h => hinj hname hb h, congrArg ψ.name⟩
    rw [List.map_cons, List.lookup_cons, List.lookup_cons, heq]
    split
    · rfl
    · exact ih hbs

/-- Binding a name and relabelling can be done in either order. -/
lemma set_relabel {f : Frame} {scope : Set String} (hinj : Set.InjOn ψ.name scope)
    (hf : ∀ b ∈ f.bindings, b.1 ∈ scope) {name : String} (hname : name ∈ scope) (v : Value) :
    (f.relabel ψ).set (ψ.name name) (v.relabel ψ) = (f.set name v).relabel ψ := by
  have hrebind : ∀ bs : List (String × Value), (∀ b ∈ bs, b.1 ∈ scope) →
      rebind (ψ.name name) (v.relabel ψ) (bs.map fun b => (ψ.name b.1, b.2.relabel ψ)) =
        (rebind name v bs).map fun b => (ψ.name b.1, b.2.relabel ψ) := by
    intro bs hbs
    induction bs with
    | nil => rfl
    | cons b bs ih =>
      obtain ⟨hb, hbs⟩ := List.forall_mem_cons.1 hbs
      have heq : ψ.name b.1 = ψ.name name ↔ b.1 = name :=
        ⟨fun h => hinj hb hname h, congrArg ψ.name⟩
      rw [List.map_cons, rebind, rebind]
      simp only [heq]
      split
      · rfl
      · rw [ih hbs, List.map_cons]
  rw [set, set, relabel, relabel, hrebind f.bindings hf]

end Frame

/-! ## Heaps -/

namespace Heap

variable {ψ : Relabelling}

/-- The heap with other names and values, in the same slots. -/
def relabel (ψ : Relabelling) (h : Heap) : Heap where
  slots := h.slots.map fun slot => { slot with frame := slot.frame.map (Frame.relabel ψ) }
  free := h.free

@[simp] lemma frame?_relabel (h : Heap) (e : Env) :
    (h.relabel ψ).frame? e = (h.frame? e).map (Frame.relabel ψ) := by
  simp only [frame?, relabel, Array.getElem?_map]
  rcases h.slots[e.index]? with _ | slot
  · rfl
  · rw [Option.map_some]
    by_cases hg : slot.generation = e.generation
    · simp [hg]
    · simp [hg]

@[simp] lemma contains_relabel (h : Heap) (e : Env) :
    (h.relabel ψ).contains e = h.contains e := by
  simp [contains]

lemma allocate_relabel (h : Heap) (parent : Option Env) :
    (h.relabel ψ).allocate parent = ((h.allocate parent).1, (h.allocate parent).2.relabel ψ) := by
  unfold allocate
  rcases hfree : h.free with _ | ⟨i, free⟩
  · simp [relabel, hfree, Frame.relabel]
  · simp only [relabel, hfree, Array.map_setIfInBounds]
    have hgen : (h.slots.map fun slot =>
        ({ slot with frame := slot.frame.map (Frame.relabel ψ) } : Slot)).getD i { frame := none } =
          { h.slots.getD i { frame := none } with
            frame := (h.slots.getD i { frame := none }).frame.map (Frame.relabel ψ) } := by
      simp only [Array.getD_eq_getD_getElem?, Array.getElem?_map]
      rcases h.slots[i]? <;> rfl
    rw [hgen]
    rfl

lemma setFrame_relabel (h : Heap) (e : Env) (f : Frame) :
    (h.relabel ψ).setFrame e (f.relabel ψ) = (h.setFrame e f).relabel ψ := by
  unfold setFrame
  rw [contains_relabel]
  split
  · simp [relabel, Array.map_setIfInBounds]
  · rfl

lemma set_relabel {h : Heap} {e : Env} {f : Frame} (hf : h.frame? e = some f)
    {scope : Set String} (hinj : Set.InjOn ψ.name scope) (hnames : ∀ b ∈ f.bindings, b.1 ∈ scope)
    {name : String} (hname : name ∈ scope) (v : Value) :
    (h.relabel ψ).set e (ψ.name name) (v.relabel ψ) = (h.set e name v).relabel ψ := by
  simp only [set, frame?_relabel, hf, Option.map_some]
  rw [Frame.set_relabel hinj hnames hname, setFrame_relabel]

lemma reclaim_relabel (h : Heap) (e : Env) : (h.relabel ψ).reclaim e = (h.reclaim e).relabel ψ := by
  unfold reclaim
  rw [contains_relabel]
  split
  · simp [relabel, Array.map_setIfInBounds]
  · rfl

lemma reclaimAll_relabel (h : Heap) (es : List Env) :
    (h.relabel ψ).reclaimAll es = (h.reclaimAll es).relabel ψ := by
  unfold reclaimAll
  induction es generalizing h with
  | nil => rfl
  | cons e es ih => rw [List.foldl_cons, List.foldl_cons, reclaim_relabel, ih]

@[simp] lemma references_relabel (h : Heap) (e : Env) :
    (h.relabel ψ).references e = h.references e := by
  simp only [references, frame?_relabel]
  rcases h.frame? e with _ | f
  · rfl
  · exact f.references_relabel

lemma unreachedWithin_relabel (h : Heap) (n : Nat) (left pending : List Env) :
    (h.relabel ψ).unreachedWithin n left pending = h.unreachedWithin n left pending := by
  induction n generalizing left pending with
  | zero => rfl
  | succ n ih => simp only [unreachedWithin, references_relabel, ih]

/-- The same frames are given back, and the same frames are kept. -/
lemma release_relabel (h : Heap) (candidates : List Env) (result : Value) :
    (h.relabel ψ).release candidates (result.relabel ψ) =
      ((h.release candidates result).1, (h.release candidates result).2.relabel ψ) := by
  simp only [release, unreached, unreachedWithin_relabel, Value.captured_mapParts_id,
    reclaimAll_relabel]

end Heap

/-! ## Machines -/

namespace Machine

variable {ψ : Relabelling}

/-- The machine with other names and values. -/
def relabel (ψ : Relabelling) (m : Machine) : Machine where
  heap := m.heap.relabel ψ
  callFrames := m.callFrames
  nextObject := m.nextObject
  printed := m.printed.map (Value.relabel ψ)

lemma relabel_initial : Machine.initial.relabel ψ = Machine.initial := by
  simp [relabel, Machine.initial, Heap.relabel, Heap.allocate, Heap.empty, Frame.relabel]

lemma entered_relabel (env : Env) (m : Machine) :
    Eval.entered env (m.relabel ψ) =
      ((Eval.entered env m).1, (Eval.entered env m).2.relabel ψ) := by
  simp only [Eval.entered, relabel, Heap.allocate_relabel]

lemma released_relabel (policy : ReleasePolicy) (mark : Nat) (result : Value) (m : Machine) :
    Eval.released policy mark (result.relabel ψ) (m.relabel ψ) =
      (Eval.released policy mark result m).relabel ψ := by
  cases policy with
  | deferred => rfl
  | eager => simp only [Eval.released, relabel, Heap.release_relabel]

end Machine

/-! ## Results -/

/-- A type of results that can be relabelled. -/
class Relabellable (α : Type) where
  /-- The closures that a result carries. -/
  Carries : α → Lambda → Env → Prop
  /-- The result with other marks. -/
  relabel : Relabelling → α → α

/-- The fault with another line. -/
def Fault.relabel (ψ : Relabelling) (f : Fault) : Fault :=
  ⟨f.cause, ψ.line f.line⟩

namespace Relabellable

instance : Relabellable Value := ⟨Value.Carries, Value.relabel⟩

instance : Relabellable Unit := ⟨fun _ _ _ => False, fun _ a => a⟩

instance : Relabellable String := ⟨fun _ _ _ => False, fun _ s => s⟩

instance : Relabellable (Option Value) where
  Carries a l e := ∃ v ∈ a, v.Carries l e
  relabel ψ := Option.map (Value.relabel ψ)

instance : Relabellable (List Value) where
  Carries a l e := ∃ v ∈ a, v.Carries l e
  relabel ψ := List.map (Value.relabel ψ)

instance : Relabellable Interrupt where
  Carries
    | .returned v => v.Carries
    | .failed _ | .exhausted => fun _ _ => False
  relabel ψ
    | .returned v => .returned (v.relabel ψ)
    | .failed fault => .failed (fault.relabel ψ)
    | .exhausted => .exhausted

instance {α : Type} [Relabellable α] : Relabellable (Except Interrupt α) where
  Carries
    | .ok a => Carries a
    | .error i => Carries i
  relabel ψ
    | .ok a => .ok (relabel ψ a)
    | .error i => .error (relabel ψ i)

/-- All closures that a result carries have a property. -/
def CarriesOnly {α : Type} [Relabellable α] (P : Lambda → Env → Prop) (a : α) : Prop :=
  ∀ lambda e, Carries a lambda e → P lambda e

variable {P : Lambda → Env → Prop}

lemma carriesOnly_of_not_holds {v : Value} (h : ∀ e, ¬ v.Holds e) : CarriesOnly P v :=
  fun _ e hcarries => absurd hcarries.holds (h e)

lemma CarriesOnly.array {elements : List Value} (h : CarriesOnly P elements) (id : ObjectId) :
    CarriesOnly P (Value.array id elements) := by
  intro lambda e hcarries
  cases hcarries with
  | element hv hcarries => exact h lambda e ⟨_, hv, hcarries⟩

lemma CarriesOnly.cons {v : Value} {vs : List Value} (hv : CarriesOnly P v)
    (hvs : CarriesOnly P vs) : CarriesOnly P (v :: vs) := by
  rintro lambda e ⟨w, hw, hcarries⟩
  rcases List.mem_cons.1 hw with rfl | hw
  · exact hv lambda e hcarries
  · exact hvs lambda e ⟨w, hw, hcarries⟩

lemma CarriesOnly.some {v : Value} (h : CarriesOnly P v) : CarriesOnly P (Option.some v) := by
  rintro lambda e ⟨w, hw, hcarries⟩
  obtain rfl := Option.some.inj hw
  exact h lambda e hcarries

lemma CarriesOnly.getD {v : Option Value} (h : CarriesOnly P v) :
    CarriesOnly P (v.getD .null) := by
  intro lambda e hcarries
  cases v with
  | none => cases hcarries
  | some v => exact h lambda e ⟨v, rfl, hcarries⟩

lemma CarriesOnly.elementAt {base index v : Value} (hv : base.elementAt index = .ok v)
    (h : CarriesOnly P base) : CarriesOnly P v := by
  intro lambda e hcarries
  obtain rfl | ⟨id, elements, rfl, hmem⟩ := Eval.eq_null_or_mem_of_elementAt hv
  · cases hcarries
  · exact h lambda e (.element hmem hcarries)

lemma CarriesOnly.elements {b : Builtin} {args elements : List Value}
    (helements : b.elements args = .ok elements) (h : CarriesOnly P args) :
    CarriesOnly P elements := by
  rintro lambda e ⟨v, hv, hcarries⟩
  obtain ⟨id, rfl⟩ := Builtin.eq_of_elements_eq_ok helements
  exact h lambda e ⟨_, List.mem_singleton_self _, .element hv hcarries⟩

lemma CarriesOnly.extended {b : Builtin} {args elements : List Value}
    (helements : b.extended args = .ok elements) (h : CarriesOnly P args) :
    CarriesOnly P elements := by
  rintro lambda e ⟨w, hw, hcarries⟩
  obtain ⟨id, xs, v, rfl, rfl⟩ := Builtin.eq_of_extended_eq_ok helements
  rcases List.mem_append.1 hw with hw | hw
  · exact h lambda e ⟨_, List.mem_cons_self, .element hw hcarries⟩
  · exact h lambda e ⟨w, by simp_all, hcarries⟩

lemma CarriesOnly.finished {r : Except Interrupt (Option Value)} (h : CarriesOnly P r) :
    CarriesOnly P (Eval.finished r) := by
  rcases r with (v | fault | _) | v
  · exact CarriesOnly.some (v := v) h
  · exact h
  · exact h
  · exact h

lemma CarriesOnly.callResult {r : Except Interrupt (Option Value)} (h : CarriesOnly P r) :
    CarriesOnly P (Eval.callResult r) := by
  rcases r with (v | fault | _) | v
  · exact h
  · exact h
  · exact h
  · exact CarriesOnly.getD (v := v) h

end Relabellable

/-- The answer with other marks: function literals have other tokens and names, and a fault is on
another line. -/
def Answer.relabel (ψ : Relabelling) : Answer → Answer
  | .value v => .value (v.map (Value.relabel ψ))
  | .unreadable faults => .unreadable faults
  | .failed fault => .failed (fault.relabel ψ)
  | .exhausted => .exhausted

lemma Answer.ofOutcome_relabel {ψ : Relabelling} (r : Except Interrupt (Option Value)) :
    Answer.ofOutcome (Relabellable.relabel ψ r) = (Answer.ofOutcome r).relabel ψ := by
  rcases r with (v | fault | _) | v <;> rfl

lemma Answer.relabel_eq_exhausted {ψ : Relabelling} {a : Answer} :
    a.relabel ψ = .exhausted ↔ a = .exhausted := by
  cases a <;> simp [Answer.relabel]

end Bhasha
