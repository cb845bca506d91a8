import Bhasha.Proofs.Machine.Closures
import Mathlib.Data.Set.Function

/-!
The same value on another machine.

A handle is good for one thing only, to find its frame, and the number of an object only tells it
from other objects. No operation of the language looks at either otherwise: types, texts,
comparisons and builtins come out the same when handles are renamed and all objects are numbered
further on. This file carries values and frames over to another machine in this way, which is a case
of other parts in objects. A frame without one around it may get one on the other machine.

Results of several types are carried over: values, lists and options of values, interrupts. The
class `Transferable` says for each what handles it holds and what becomes of it, so that the
simulation built on this file has one notion of the same result.
-/

namespace Bhasha

/-! ## Values -/

namespace Value

/-- The value with its handles renamed and its objects numbered `k` further on. -/
abbrev transfer (k : Nat) (σ : Env → Env) : Value → Value :=
  mapParts (· + k) id σ

/-- The value with its handles renamed. -/
abbrev rename (σ : Env → Env) : Value → Value :=
  transfer 0 σ

variable {k : Nat} {σ τ : Env → Env}

mutual

lemma transfer_congr : ∀ v : Value, (∀ e, v.Holds e → σ e = τ e) → v.transfer k σ = v.transfer k τ
  | .array _ elements, h => by
    rw [transfer, mapParts, transferAll_congr elements fun v hv e he => h e (.element hv he)]
    rfl
  | .closure _ _ env, h => by
    rw [transfer, mapParts, h env .closure]
    rfl
  | .int _, _ | .bool _, _ | .str _ _, _ | .null, _ | .builtin _, _ => rfl

lemma transferAll_congr : ∀ vs : List Value, (∀ v ∈ vs, ∀ e, v.Holds e → σ e = τ e) →
    mapPartsAll (· + k) id σ vs = mapPartsAll (· + k) id τ vs
  | [], _ => rfl
  | v :: vs, h => congrArg₂ List.cons (transfer_congr v (h v (by simp)))
    (transferAll_congr vs fun w hw => h w (by simp [hw]))

end

lemma Holds.transfer {v : Value} {e : Env} (h : v.Holds e) : (v.transfer k σ).Holds (σ e) := by
  induction h with
  | closure => exact .closure
  | element hv _ ih =>
    rw [Value.transfer, mapParts_array]
    exact .element (List.mem_map_of_mem hv) ih

/-- A value holds no handles on the other machine but its own, renamed. -/
lemma exists_holds_of_holds_transfer {v : Value} {e : Env} (h : (v.transfer k σ).Holds e) :
    ∃ d, v.Holds d ∧ σ d = e := by
  generalize hw : v.transfer k σ = w at h
  induction h generalizing v with
  | closure =>
    cases v with
    | closure id lambda env =>
      obtain ⟨-, -, rfl⟩ := Value.closure.inj hw
      exact ⟨env, .closure, rfl⟩
    | _ => cases hw
  | element hv _ ih =>
    cases v with
    | array id elements =>
      rw [transfer, mapParts_array] at hw
      obtain ⟨-, rfl⟩ := Value.array.inj hw
      obtain ⟨x, hx, rfl⟩ := List.mem_map.1 hv
      obtain ⟨d, hd, heq⟩ := ih rfl
      exact ⟨d, .element hx hd, heq⟩
    | _ => cases hw

mutual

lemma render_transfer : ∀ v : Value, (v.transfer k σ).render = v.render
  | .array _ elements =>
    congrArg (fun texts => "[" ++ Text.commaSeparated texts ++ "]") (renderAll_transfer elements)
  | .closure _ _ _ | .int _ | .bool _ | .str _ _ | .null | .builtin _ => rfl

lemma renderAll_transfer : ∀ vs : List Value,
    renderAll (mapPartsAll (· + k) id σ vs) = renderAll vs
  | [] => rfl
  | v :: vs => congrArg₂ List.cons (render_transfer v) (renderAll_transfer vs)

end

end Value

/-! ## Frames -/

namespace Frame

variable {k : Nat} {outer : Option Env} {σ τ : Env → Env}

/-- The frame on another machine, inside `outer` if there was nothing around it. -/
def transfer (k : Nat) (outer : Option Env) (σ : Env → Env) (f : Frame) : Frame where
  bindings := f.bindings.map fun b => (b.1, b.2.transfer k σ)
  parent := (f.parent.map σ).or outer

/-- The frame with its handles renamed. -/
abbrev rename (σ : Env → Env) : Frame → Frame :=
  transfer 0 none σ

lemma transfer_congr {f : Frame} (h : ∀ e, f.Refers e → σ e = τ e) :
    f.transfer k outer σ = f.transfer k outer τ := by
  have hbindings : ∀ b ∈ f.bindings, (b.1, b.2.transfer k σ) = (b.1, b.2.transfer k τ) := by
    intro b hb
    rw [Value.transfer_congr b.2 fun e he => h e (Or.inr ⟨b, hb, he⟩)]
  have hparent : f.parent.map σ = f.parent.map τ :=
    Option.map_congr fun e he => h e (Or.inl he)
  rw [transfer, transfer, List.map_congr_left hbindings, hparent]

lemma Refers.transfer {f : Frame} {e : Env} (h : f.Refers e) :
    (f.transfer k outer σ).Refers (σ e) := by
  rcases h with h | ⟨b, hb, he⟩
  · exact Or.inl (by rw [Frame.transfer, h, Option.map_some, Option.some_or])
  · exact Or.inr ⟨(b.1, b.2.transfer k σ), List.mem_map_of_mem hb, he.transfer⟩

lemma get?_transfer (f : Frame) (name : String) :
    (f.transfer k outer σ).get? name = (f.get? name).map (Value.transfer k σ) := by
  obtain ⟨bindings, parent⟩ := f
  simp only [get?, transfer]
  induction bindings with
  | nil => rfl
  | cons b bs ih =>
    rw [List.map_cons, List.lookup_cons, List.lookup_cons]
    split
    · rfl
    · exact ih

lemma set_transfer (f : Frame) (name : String) (v : Value) :
    (f.transfer k outer σ).set name (v.transfer k σ) = (f.set name v).transfer k outer σ := by
  have hrebind : ∀ bs : List (String × Value),
      rebind name (v.transfer k σ) (bs.map fun b => (b.1, b.2.transfer k σ)) =
        (rebind name v bs).map fun b => (b.1, b.2.transfer k σ) := by
    intro bs
    induction bs with
    | nil => rfl
    | cons b bs ih =>
      rw [List.map_cons, rebind, rebind]
      split
      · rfl
      · rw [ih, List.map_cons]
  rw [set, set, transfer, transfer, hrebind]

end Frame

/-! ## Results that hold handles -/

/-- A type of results that can be carried over to another machine. -/
class Transferable (α : Type) where
  /-- The handles that a result holds. -/
  Holds : α → Env → Prop
  /-- The result with its handles renamed and its objects numbered further on. -/
  transfer : Nat → (Env → Env) → α → α
  /-- What becomes of a result depends on the names of its own handles only. -/
  transfer_congr {k : Nat} {σ τ : Env → Env} {a : α} :
    (∀ e, Holds a e → σ e = τ e) → transfer k σ a = transfer k τ a

namespace Transferable

instance : Transferable Value := ⟨Value.Holds, Value.transfer, Value.transfer_congr _⟩

instance : Transferable Env := ⟨fun e d => d = e, fun _ σ e => σ e, fun h => h _ rfl⟩

instance : Transferable Unit := ⟨fun _ _ => False, fun _ _ a => a, fun _ => rfl⟩

instance : Transferable String := ⟨fun _ _ => False, fun _ _ s => s, fun _ => rfl⟩

instance : Transferable Cause := ⟨fun _ _ => False, fun _ _ c => c, fun _ => rfl⟩

instance : Transferable (Option Value) where
  Holds := Eval.HeldIn
  transfer k σ := Option.map (Value.transfer k σ)
  transfer_congr h :=
    Option.map_congr fun v hv => Value.transfer_congr v fun e he => h e ⟨v, hv, he⟩

instance : Transferable (List Value) where
  Holds := Eval.HeldIn
  transfer k σ := List.map (Value.transfer k σ)
  transfer_congr h :=
    List.map_congr_left fun v hv => Value.transfer_congr v fun e he => h e ⟨v, hv, he⟩

instance : Transferable Interrupt where
  Holds := Interrupt.Holds
  transfer k σ
    | .returned v => .returned (v.transfer k σ)
    | .failed fault => .failed fault
    | .exhausted => .exhausted
  transfer_congr {_ _ _ i} h := by
    cases i with
    | returned v => exact congrArg _ (Value.transfer_congr v h)
    | failed _ | exhausted => rfl

instance {ε α : Type} [Transferable ε] [Transferable α] : Transferable (Except ε α) where
  Holds
    | .ok a => Holds a
    | .error i => Holds i
  transfer k σ
    | .ok a => .ok (transfer k σ a)
    | .error i => .error (transfer k σ i)
  transfer_congr {_ _ _ r} h := by
    cases r with
    | ok a => exact congrArg _ (transfer_congr h)
    | error i => exact congrArg _ (transfer_congr h)

end Transferable

/-! ## Renamings -/

/-- A renaming of the handles in a set. -/
structure Renaming where
  /-- The handles that are renamed. -/
  dom : Set Env
  /-- The new handles. -/
  map : Env → Env

namespace Renaming

/-- A renaming goes on from another if it renames at least the same handles, and those alike. -/
instance : Preorder Renaming where
  le π ρ := (∀ e ∈ π.dom, e ∈ ρ.dom) ∧ ∀ e ∈ π.dom, ρ.map e = π.map e
  le_refl _ := ⟨fun _ he => he, fun _ _ => rfl⟩
  le_trans _ _ _ h₁ h₂ :=
    ⟨fun e he => h₂.1 e (h₁.1 e he), fun e he => (h₂.2 e (h₁.1 e he)).trans (h₁.2 e he)⟩

variable {α : Type} [Transferable α] {π ρ : Renaming} {k : Nat}

/-- The second result is the first one on a machine whose handles are the renamed ones and whose
objects are numbered `k` further on. -/
def Transfers (π : Renaming) (k : Nat) (a a' : α) : Prop :=
  (∀ e, Transferable.Holds a e → e ∈ π.dom) ∧ a' = Transferable.transfer k π.map a

/-- The second result is the first one renamed. -/
def Renames (π : Renaming) (a a' : α) : Prop :=
  π.Transfers 0 a a'

lemma Transfers.mono {a a' : α} (h : π.Transfers k a a') (hle : π ≤ ρ) : ρ.Transfers k a a' := by
  refine ⟨fun e he => hle.1 e (h.1 e he), h.2.trans ?_⟩
  exact Transferable.transfer_congr fun e he => (hle.2 e (h.1 e he)).symm

/-- A value that is no object is the same on every machine. -/
lemma transfers_of_plain {v : Value} (h : v.Plain) : π.Transfers k v v :=
  ⟨fun e he => absurd he (h.not_holds e), h.mapParts_eq.symm⟩

lemma Transfers.ok {ε : Type} [Transferable ε] {a a' : α} (h : π.Transfers k a a') :
    π.Transfers k (.ok a : Except ε α) (.ok a') :=
  ⟨h.1, congrArg _ h.2⟩

/-- A result that can fail, if what it can be is carried over. -/
lemma transfers_map {r : Except Cause α}
    (h : ∀ a, r = .ok a → ∀ e, Transferable.Holds a e → e ∈ π.dom) :
    π.Transfers k r (r.map (Transferable.transfer k π.map)) := by
  cases r with
  | error cause => exact ⟨fun _ he => he.elim, rfl⟩
  | ok a => exact ⟨h a rfl, rfl⟩

lemma transfers_of_ok_plain {r : Except Cause Value} (h : ∀ v, r = .ok v → v.Plain) :
    π.Transfers k r r := by
  cases r with
  | error cause => exact ⟨fun _ he => he.elim, rfl⟩
  | ok v => exact (transfers_of_plain (h v rfl)).ok

lemma Transfers.some {v v' : Value} (h : π.Transfers k v v') :
    π.Transfers k (Option.some v) (Option.some v') := by
  refine ⟨?_, congrArg _ h.2⟩
  rintro e ⟨w, hw, he⟩
  obtain rfl := Option.some.inj hw
  exact h.1 e he

lemma transfers_none : π.Transfers k (none : Option Value) none :=
  ⟨fun _ ⟨_, hv, _⟩ => (nomatch hv), rfl⟩

lemma Transfers.getD {v v' : Option Value} (h : π.Transfers k v v') :
    π.Transfers k (v.getD .null) (v'.getD .null) := by
  obtain ⟨hdom, rfl⟩ := h
  cases v with
  | none => exact transfers_of_plain .null
  | some v => exact ⟨fun e he => hdom e ⟨v, rfl, he⟩, rfl⟩

lemma Transfers.array {vs vs' : List Value} (h : π.Transfers k vs vs') (id : ObjectId) :
    π.Transfers k (Value.array id vs) (Value.array (id + k) vs') := by
  obtain ⟨hdom, rfl⟩ := h
  have heq : (Value.array id vs).transfer k π.map = _ := Value.mapParts_array id vs
  refine ⟨fun e he => ?_, heq.symm⟩
  cases he with
  | element hv he => exact hdom e ⟨_, hv, he⟩

lemma Transfers.cons {v v' : Value} {vs vs' : List Value} (hv : π.Transfers k v v')
    (hvs : π.Transfers k vs vs') : π.Transfers k (v :: vs) (v' :: vs') := by
  refine ⟨?_, by rw [hv.2, hvs.2]; rfl⟩
  rintro e ⟨w, hw, he⟩
  rcases List.mem_cons.1 hw with rfl | hw
  · exact hv.1 e he
  · exact hvs.1 e ⟨w, hw, he⟩

lemma Transfers.closure {env env' : Env} (h : π.Transfers k env env') (id : ObjectId)
    (lambda : Lambda) :
    π.Transfers k (Value.closure id lambda env) (Value.closure (id + k) lambda env') := by
  refine ⟨fun e he => ?_, by rw [h.2]; rfl⟩
  cases he with
  | closure => exact h.1 env rfl

end Renaming

end Bhasha
