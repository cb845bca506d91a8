import Bhasha.Proofs.Machine.Safety

/-!
What operations see of an object.

Operators and builtins never look into a closure: that it is one, and which one, is all they see.
Nor do they look at the number of an object, but to tell it from another. So whatever function
literals and environments are put into the closures of their operands, and however objects are
numbered, the result is the same up to that. `Value.mapParts` does all of it, and this file says for
each operation that it commutes with it.
-/

namespace Bhasha

namespace Value

lemma type_eq_int {v : Value} : v.type = .int ↔ ∃ n, v = .int n := by
  cases v <;> simp [Value.type]

lemma type_eq_str {v : Value} : v.type = .str ↔ ∃ id text, v = .str id text := by
  cases v <;> simp [Value.type]

lemma type_eq_array {v : Value} : v.type = .array ↔ ∃ id elements, v = .array id elements := by
  cases v <;> simp [Value.type]

mutual

/-- The value with other numbers on its objects, and with other function literals and environments
in its closures. -/
def mapParts (ι : ObjectId → ObjectId) (g : Lambda → Lambda) (σ : Env → Env) : Value → Value
  | int n => int n
  | bool b => bool b
  | str id text => str (ι id) text
  | array id elements => array (ι id) (mapPartsAll ι g σ elements)
  | null => null
  | closure id lambda env => closure (ι id) (g lambda) (σ env)
  | builtin b => builtin b

/-- The values with other parts. -/
def mapPartsAll (ι : ObjectId → ObjectId) (g : Lambda → Lambda) (σ : Env → Env) :
    List Value → List Value
  | [] => []
  | v :: rest => v.mapParts ι g σ :: mapPartsAll ι g σ rest

end

variable {ι : ObjectId → ObjectId} {g : Lambda → Lambda} {σ : Env → Env}

lemma mapPartsAll_eq_map (vs : List Value) : mapPartsAll ι g σ vs = vs.map (mapParts ι g σ) := by
  induction vs with
  | nil => rfl
  | cons v vs ih => rw [mapPartsAll, ih, List.map_cons]

@[simp] lemma mapParts_array (id : ObjectId) (elements : List Value) :
    (array id elements).mapParts ι g σ = array (ι id) (elements.map (mapParts ι g σ)) := by
  rw [mapParts, mapPartsAll_eq_map]

@[simp] lemma type_mapParts (v : Value) : (v.mapParts ι g σ).type = v.type := by
  cases v <;> rfl

@[simp] lemma truthy_mapParts (v : Value) : (v.mapParts ι g σ).truthy = v.truthy := by
  cases v <;> rfl

lemma Plain.mapParts_eq {v : Value} (h : v.Plain) : v.mapParts ι g σ = v := by
  cases h <;> rfl

/-- Objects stay one or two if no two numbers become one. -/
lemma identical_mapParts (hι : Function.Injective ι) (v w : Value) :
    (v.mapParts ι g σ).identical (w.mapParts ι g σ) = v.identical w := by
  have hnumber : ∀ i j : ObjectId, (ι i == ι j) = (i == j) := fun i j => by
    rw [Bool.eq_iff_iff, beq_iff_eq, beq_iff_eq, hι.eq_iff]
  cases v <;> cases w <;> simp only [mapParts, identical, hnumber]

mutual

/-- A value without closures has nothing to change but the numbers of its objects. -/
lemma mapParts_of_not_holds : ∀ v : Value, (∀ e, ¬ v.Holds e) → v.mapParts id g σ = v
  | .array _ elements, h => by
    rw [mapParts, mapPartsAll_of_not_holds elements fun v hv e he => h e (.element hv he), id]
  | .closure _ _ env, h => absurd .closure (h env)
  | .int _, _ | .bool _, _ | .str _ _, _ | .null, _ | .builtin _, _ => rfl

lemma mapPartsAll_of_not_holds : ∀ vs : List Value, (∀ v ∈ vs, ∀ e, ¬ v.Holds e) →
    mapPartsAll id g σ vs = vs
  | [], _ => rfl
  | v :: vs, h => by
    rw [mapPartsAll, mapParts_of_not_holds v (h v (by simp)),
      mapPartsAll_of_not_holds vs fun w hw => h w (by simp [hw])]

end

mutual

/-- A value holds the same environments if those in its closures are not changed. -/
@[simp] lemma captured_mapParts_id : ∀ v : Value, (v.mapParts ι g id).captured = v.captured
  | .array _ elements => capturedAll_mapPartsAll_id elements
  | .closure _ _ _ | .int _ | .bool _ | .str _ _ | .null | .builtin _ => rfl

lemma capturedAll_mapPartsAll_id : ∀ vs : List Value,
    capturedAll (mapPartsAll ι g id vs) = capturedAll vs
  | [] => rfl
  | v :: vs => by
    rw [mapPartsAll, capturedAll, capturedAll, v.captured_mapParts_id,
      capturedAll_mapPartsAll_id vs]

end

end Value

/-! ## Operators -/

section Operators

variable {ι : ObjectId → ObjectId} {g : Lambda → Lambda} {σ : Env → Env}

lemma onIdentity_mapParts (hι : Function.Injective ι) (op : BinaryOp) (v w : Value) :
    op.onIdentity (v.mapParts ι g σ) (w.mapParts ι g σ) = op.onIdentity v w := by
  cases op <;> simp [BinaryOp.onIdentity, Value.identical_mapParts hι]

lemma onValue_mapParts (op : UnaryOp) (v : Value) :
    op.onValue (v.mapParts ι g σ) = op.onValue v := by
  cases op with
  | not => simp [UnaryOp.onValue]
  | neg => cases v <;> rfl

lemma elementAt_mapParts (v w : Value) :
    (v.mapParts ι g σ).elementAt (w.mapParts ι g σ) =
      (v.elementAt w).map (Value.mapParts ι g σ) := by
  by_cases h : v.type = .array ∧ w.type = .int
  · obtain ⟨id, elements, rfl⟩ := Value.type_eq_array.1 h.1
    obtain ⟨n, rfl⟩ := Value.type_eq_int.1 h.2
    rw [Value.mapParts_array, Value.mapParts]
    simp only [Value.elementAt, List.length_map]
    rcases Number.position? n elements.length with _ | i
    · rfl
    · refine congrArg Except.ok ?_
      rw [List.getD_eq_getElem?_getD, List.getD_eq_getElem?_getD, List.getElem?_map]
      rcases elements[i]? with _ | v <;> rfl
  · have herror : ∀ {v w : Value}, ¬ (v.type = .array ∧ w.type = .int) →
        v.elementAt w = .error (.indexNotSupported v.type w.type) := by
      intro v w h
      unfold Value.elementAt
      split
      · exact absurd ⟨rfl, rfl⟩ h
      · rfl
    rw [herror h, herror (by simpa using h), Value.type_mapParts, Value.type_mapParts]
    rfl

/-- Beyond integers and strings, operators see types and identities only. -/
lemma Eval.binary_of_type_ne {v w : Value} (hint : ¬ (v.type = .int ∧ w.type = .int))
    (hstr : ¬ (v.type = .str ∧ w.type = .str)) (op : BinaryOp) (line : Nat) :
    Eval.binary op v w line =
      if v.type = w.type then Eval.check line (op.onIdentity v w)
      else Eval.fail (.typeMismatch v.type op w.type) line := by
  unfold Eval.binary
  split
  · exact absurd ⟨rfl, rfl⟩ hint
  · exact absurd ⟨rfl, rfl⟩ hstr
  · rfl

end Operators

/-! ## Builtins -/

section Builtins

variable {ι : ObjectId → ObjectId} {g : Lambda → Lambda} {σ : Env → Env}

lemma Builtin.elements_mapParts (b : Builtin) (args : List Value) :
    b.elements (args.map (Value.mapParts ι g σ)) =
      (b.elements args).map (List.map (Value.mapParts ι g σ)) := by
  by_cases hlen : args.length = 1
  · obtain ⟨v, rfl⟩ := List.length_eq_one_iff.1 hlen
    cases v with
    | array id xs =>
      rw [List.map_singleton, Value.mapParts_array, elements_array, elements_array]
      rfl
    | _ => rfl
  · rw [elements_of_ne b hlen, elements_of_ne b (by simpa using hlen), List.length_map]
    rfl

lemma Builtin.extended_mapParts (b : Builtin) (args : List Value) :
    b.extended (args.map (Value.mapParts ι g σ)) =
      (b.extended args).map (List.map (Value.mapParts ι g σ)) := by
  by_cases hlen : args.length = 2
  · obtain ⟨v, w, rfl⟩ := List.length_eq_two.1 hlen
    cases v with
    | array id xs =>
      rw [List.map_cons, List.map_singleton, Value.mapParts_array, extended_array,
        extended_array, Except.map, List.map_append, List.map_singleton]
    | _ => rfl
  · rw [extended_of_ne b hlen, extended_of_ne b (by simpa using hlen), List.length_map]
    rfl

lemma Builtin.length_mapParts (args : List Value) :
    Builtin.length (args.map (Value.mapParts ι g σ)) = Builtin.length args := by
  by_cases hlen : args.length = 1
  · obtain ⟨v, rfl⟩ := List.length_eq_one_iff.1 hlen
    cases v with
    | array id xs =>
      rw [List.map_singleton, Value.mapParts_array, length_array, length_array, List.length_map]
    | _ => rfl
  · rw [length_of_ne hlen, length_of_ne (by simpa using hlen), List.length_map]

end Builtins

end Bhasha
