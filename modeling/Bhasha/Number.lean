/-!
Checked integers.

The integers of the language are the 64-bit words read as signed numbers, and no operation on
them wraps: a result that does not fit is refused. Each operation is therefore the operation on
unbounded integers followed by the one test of this file.
-/

namespace Bhasha.Number

/-- The least integer of the language, whose word has its highest bit set and no other. -/
def least : Int := -0x8000000000000000

/-- The greatest integer of the language. -/
def greatest : Int := 0x7fffffffffffffff

/-- Whether an integer fits. -/
def Fits (n : Int) : Prop :=
  least ≤ n ∧ n ≤ greatest

instance (n : Int) : Decidable (Fits n) :=
  inferInstanceAs (Decidable (_ ∧ _))

/-- The word of an integer that fits. -/
def ofInt? (n : Int) : Option Int64 :=
  if Fits n then some (Int64.ofInt n) else none

/-- A word stands for an integer exactly when the integer fits and is the value of the word. -/
theorem ofInt?_eq_some_iff {n : Int} {w : Int64} : ofInt? n = some w ↔ w.toInt = n := by
  unfold ofInt?
  constructor
  · intro h
    split at h
    · rename_i hn
      obtain ⟨lower, upper⟩ := hn
      rw [← Option.some.inj h]
      exact Int64.toInt_ofInt_of_le (by simpa [least] using lower)
        (by simp only [greatest] at upper; omega)
    · exact absurd h (by simp)
  · rintro rfl
    have lower := w.le_toInt
    have upper := w.toInt_lt
    rw [if_pos ⟨by simpa [least] using lower, by simp only [greatest]; omega⟩,
      Int64.ofInt_toInt]

/-- An integer has no word exactly when it does not fit. -/
theorem ofInt?_eq_none_iff {n : Int} : ofInt? n = none ↔ ¬ Fits n := by
  unfold ofInt?
  split <;> simp_all

/-- The word of a count that fits. -/
def ofNat? (n : Nat) : Option Int64 :=
  ofInt? n

/-- The sum, if it fits. -/
def add? (a b : Int64) : Option Int64 :=
  ofInt? (a.toInt + b.toInt)

/-- The difference, if it fits. -/
def sub? (a b : Int64) : Option Int64 :=
  ofInt? (a.toInt - b.toInt)

/-- The product, if it fits. -/
def mul? (a b : Int64) : Option Int64 :=
  ofInt? (a.toInt * b.toInt)

/-- The quotient towards zero by a divisor that is not zero, if it fits: the least integer has no
quotient by minus one. -/
def div? (a b : Int64) : Option Int64 :=
  ofInt? (a.toInt.tdiv b.toInt)

/-- The negative, if it fits: the least integer has none. -/
def neg? (a : Int64) : Option Int64 :=
  ofInt? (-a.toInt)

/-- The number that a run of decimal digits writes. -/
def ofDigits (digits : List Char) : Nat :=
  digits.foldl (fun n d => 10 * n + (d.toNat - '0'.toNat)) 0

/-- The word that a run of decimal digits writes, if it fits. -/
def ofDigits? (digits : String) : Option Int64 :=
  ofNat? (ofDigits digits.toList)

/-- The position that an integer names among `length` of them, if there is one. -/
def position? (index : Int64) (length : Nat) : Option Nat :=
  if 0 ≤ index.toInt ∧ index.toInt < length then some index.toInt.toNat else none

/-- The decimal text of an integer. -/
def render (n : Int64) : String :=
  toString n.toInt

end Bhasha.Number
