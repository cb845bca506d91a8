import Bhasha.Proofs.Machine.Closures
import Bhasha.Proofs.Machine.Objects

/-!
The two equalities of values.

Identity is what programs compare by, and equality of content looks into strings and arrays. Both
are equivalences: to be equal is to have the same content, where the content of a value is the value
without the numbers of its strings and arrays. They differ on strings and arrays alone, and there
identity is the finer of the two, since in a run an object has only one content.

A comparison succeeds for two values of one type other than string. Then it tells whether they are
identical.
-/

namespace Bhasha

namespace Value

/-! ## Identity -/

lemma identical_comm (v w : Value) : v.identical w = w.identical v := by
  cases v <;> cases w <;> simp only [identical, BEq.comm]

lemma identical_self (v : Value) : v.identical v = true := by
  cases v <;> simp only [identical, BEq.rfl]

/-- Identity is an equivalence. -/
lemma equivalence_identical : Equivalence fun v w : Value => v.identical w = true := by
  refine ⟨identical_self, fun h => by rwa [identical_comm], ?_⟩
  intro u v w huv hvw
  simp only [identical_iff] at *
  obtain ⟨htype, hid, heq⟩ := huv
  obtain ⟨htype', hid', heq'⟩ := hvw
  refine ⟨htype.trans htype', hid.trans hid', fun hnone => ?_⟩
  exact (heq hnone).trans (heq' (hid ▸ hnone))

/-! ## Equality of content -/

mutual

/-- What equality of content sees of a value: no numbers of strings and arrays, and of closures the
number alone. -/
def content : Value → Value
  | str _ text => str 0 text
  | array _ elements => array 0 (contentAll elements)
  | closure id _ _ => closure id default default
  | v => v

/-- What equality of content sees of values. -/
def contentAll : List Value → List Value
  | [] => []
  | v :: rest => v.content :: contentAll rest

end

mutual

lemma equal_iff_content (v w : Value) : v.equal w = true ↔ v.content = w.content := by
  cases v with
  | array _ xs =>
    cases w with
    | array _ ys => simp [equal, content, equalAll_iff_contentAll xs ys]
    | _ => simp [equal, identical, content]
  | _ => cases w <;> simp [equal, identical, content]

lemma equalAll_iff_contentAll (xs ys : List Value) :
    equalAll xs ys = true ↔ contentAll xs = contentAll ys := by
  cases xs with
  | nil => cases ys <;> simp [equalAll, contentAll]
  | cons x xs =>
    cases ys with
    | nil => simp [equalAll, contentAll]
    | cons y ys =>
      simp [equalAll, contentAll, equal_iff_content x y, equalAll_iff_contentAll xs ys]

end

/-- Equality of content is an equivalence. -/
lemma equivalence_equal : Equivalence fun v w : Value => v.equal w = true := by
  simp only [equal_iff_content]
  exact eq_equivalence.comap content

lemma equal_eq_identical {v : Value} (hstr : v.type ≠ .str) (harray : v.type ≠ .array) (w : Value) :
    v.equal w = v.identical w := by
  cases v with
  | str => exact (hstr rfl).elim
  | array => exact (harray rfl).elim
  | _ => simp [equal]

end Value

/-! ## Comparisons -/

/-- The comparison that tells whether two values are the same, or whether they are not. -/
def BinaryOp.comparison (positive : Bool) : BinaryOp :=
  bif positive then .eq else .ne

namespace Eval

/-- The evaluation ends with a result. -/
def Succeeds {α : Type} (x : Eval α) (m : Machine) : Prop :=
  ∃ a m', x.outcome m = (.ok a, m')

/-- Values that can be compared: of one type, and no strings. -/
def Comparable (v w : Value) : Prop :=
  v.type = w.type ∧ v.type ≠ .str

lemma outcome_comparison {v w : Value} (h : Comparable v w) (positive : Bool) (line : Nat)
    (m : Machine) :
    (binary (.comparison positive) v w line).outcome m =
      (.ok (.bool (bif positive then v.identical w else !v.identical w)), m) := by
  obtain ⟨htype, hstr⟩ := h
  by_cases hint : v.type = .int ∧ w.type = .int
  · obtain ⟨a, rfl⟩ := Value.type_eq_int.1 hint.1
    obtain ⟨b, rfl⟩ := Value.type_eq_int.1 hint.2
    cases positive <;> rfl
  · rw [binary_of_type_ne hint (fun h => hstr h.1), if_pos htype]
    cases positive <;> rfl

lemma comparison_fails {v w : Value} (h : ¬ Comparable v w) (positive : Bool) (line : Nat) :
    ∃ cause, binary (.comparison positive) v w line = fail cause line := by
  by_cases hstr : v.type = .str ∧ w.type = .str
  · obtain ⟨i, s, rfl⟩ := Value.type_eq_str.1 hstr.1
    obtain ⟨j, t, rfl⟩ := Value.type_eq_str.1 hstr.2
    refine ⟨.unknownBinary .str (.comparison positive) .str, ?_⟩
    cases positive <;> rfl
  · have htype : v.type ≠ w.type := fun htype => h ⟨htype, fun hs => hstr ⟨hs, htype ▸ hs⟩⟩
    refine ⟨.typeMismatch v.type (.comparison positive) w.type, ?_⟩
    rw [binary_of_type_ne (fun hint => htype (hint.1.trans hint.2.symm)) hstr, if_neg htype]

lemma succeeds_comparison_iff (positive : Bool) (v w : Value) (line : Nat) (m : Machine) :
    Succeeds (binary (.comparison positive) v w line) m ↔ Comparable v w := by
  constructor
  · rintro ⟨u, m', hout⟩
    by_contra hnot
    obtain ⟨cause, hfail⟩ := comparison_fails hnot positive line
    rw [hfail] at hout
    cases hout
  · intro h
    exact ⟨_, m, outcome_comparison h positive line m⟩

lemma Comparable.symm {v w : Value} (h : Comparable v w) : Comparable w v :=
  ⟨h.1.symm, h.1 ▸ h.2⟩

end Eval

open Eval (Succeeds binary)

/-- The two equalities fit together. Both are equivalences. Identical values that come up while a
machine is used for one thing after the other have the same content, and for values that are neither
strings nor arrays to be identical and to have the same content is one. Programs see identity: a
comparison with `==` succeeds if it does the other way round and if one with `!=` does, and all of
them tell whether the two are identical. A value that is no string is the same as itself. -/
theorem Value.equalities_agree :
    Equivalence (fun v w : Value => v.identical w = true) ∧
    Equivalence (fun v w : Value => v.equal w = true) ∧
    (∀ uses v w, Machine.initial.Arises uses v → Machine.initial.Arises uses w →
      v.identical w = true → v.equal w = true) ∧
    (∀ v w : Value, v.type ≠ .str → v.type ≠ .array → v.equal w = v.identical w) ∧
    ∀ (v w : Value) (line : Nat) (m : Machine),
      (Succeeds (binary .eq v w line) m ↔ Succeeds (binary .eq w v line) m) ∧
      (Succeeds (binary .eq v w line) m ↔ Succeeds (binary .ne v w line) m) ∧
      (Succeeds (binary .eq v w line) m →
        (binary .eq v w line).outcome m = (.ok (.bool (v.identical w)), m) ∧
        (binary .eq w v line).outcome m = (.ok (.bool (v.identical w)), m) ∧
        (binary .ne v w line).outcome m = (.ok (.bool (!v.identical w)), m)) ∧
      (v.type ≠ .str → (binary .eq v v line).outcome m = (.ok (.bool true), m)) := by
  refine ⟨equivalence_identical, equivalence_equal, fun uses v w hv hw h => ?_,
    fun v w hstr harray => equal_eq_identical hstr harray w, fun v w line m => ?_⟩
  · rw [hv.eq_of_identical hw h]
    exact equal_self w
  have hiff := fun positive v w => Eval.succeeds_comparison_iff positive v w line m
  refine ⟨?_, (hiff true v w).trans (hiff false v w).symm, fun hok => ?_, fun hstr => ?_⟩
  · rw [show BinaryOp.eq = .comparison true from rfl, hiff, hiff]
    exact ⟨.symm, .symm⟩
  · have hvw : Eval.Comparable v w := (hiff true v w).1 hok
    refine ⟨Eval.outcome_comparison hvw true line m, ?_, Eval.outcome_comparison hvw false line m⟩
    rw [identical_comm]
    exact Eval.outcome_comparison hvw.symm true line m
  · rw [← identical_self v]
    exact Eval.outcome_comparison ⟨rfl, hstr⟩ true line m

/-- An array that is the element of another comes up again when it is taken out, in the body of a
later call. -/
theorem Value.equalities_agree_of_element :
    let uses : List Machine.Use :=
      [.evaluate (Program.read "let a = [[1], \"x\"];").1 Env.global 9,
        .collectGarbage [Env.global],
        .evaluate (Program.read "fn(y) \x7b y[0] \x7d(a)").1 Env.global 9]
    ∃ v w, Machine.initial.Arises uses (.array 2 [v, .str 1 "x"]) ∧ Machine.initial.Arises uses w ∧
      v.identical w = true ∧ v.equal w = true := by
  intro uses
  have hwhole : Machine.initial.Arises uses (.array 2 [.array 0 [.int 1], .str 1 "x"]) :=
    .shown [] rfl (.evaluate ⟨_, _, .head, _, .refl, _, rfl⟩)
  have htaken : Machine.initial.Arises uses (.array 0 [.int 1]) :=
    .shown (uses.take 2) rfl (.evaluate ⟨_, _, .head, _,
      .single (.calls (.call rfl rfl) (.body rfl rfl .head)), _, rfl⟩)
  have helement := hwhole.element List.mem_cons_self
  exact ⟨_, _, hwhole, htaken, rfl,
    Value.equalities_agree.2.2.1 uses _ _ helement htaken rfl⟩

end Bhasha
