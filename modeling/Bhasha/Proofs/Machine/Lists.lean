import Bhasha.Proofs.Machine.Safety

/-!
Arrays are lists.

Programs look into an array in several ways: by an index, by `first`, `last` and `rest`, and by
its length. Each of them has its own convention at the boundary. `Value.ShowsList` says that all of
them speak of one list, and it holds of every array with its elements, also of those that `push`
makes. What is said of two ways to get at an element is said as an equation between two evaluations,
so that the failures are the same too.

Some builtins have a second name. Under it they do the same, but a fault that names the builtin
names the one that was called.
-/

namespace Bhasha

namespace Number

/-- A count that is not too great has a word. -/
lemma exists_ofNat? {count : Nat} (h : (count : Int) ≤ greatest) :
    ∃ n : Int64, ofNat? count = some n ∧ n.toInt = count := by
  have hfits : Fits count := ⟨by unfold least; omega, h⟩
  have hword : ofNat? count = some (Int64.ofInt count) := if_pos hfits
  exact ⟨_, hword, ofInt?_eq_some_iff.1 hword⟩

/-- A count greater than one that does not fit does not fit either. -/
lemma ofNat?_eq_none_of_le {count greater : Nat} (h : ofNat? count = none)
    (hle : count ≤ greater) : ofNat? greater = none := by
  rw [ofNat?, ofInt?_eq_none_iff, Fits] at h ⊢
  unfold least at h ⊢
  omega

end Number

/-! ## What is taken from an array -/

namespace Eval

/-- An array without some of its first elements, each taken off by `rest`. -/
def restTimes (line : Nat) : Nat → Value → Eval Value
  | 0, a => pure a
  | n + 1, a => do restTimes line n (← Builtin.rest.call [a] line)

/-- The first element of an array without some of its first elements. -/
def firstAfter (line n : Nat) (a : Value) : Eval Value := do
  Builtin.first.call [← restTimes line n a] line

/-- The element at the index that is one less than the length. -/
def indexLast (line : Nat) (a : Value) : Eval Value := do
  let count ← Builtin.len.call [a] line
  index a (← binary .sub count (.int 1) line) line

/-- The length of one value and that of another, added up. -/
def lenAdded (line : Nat) (a b : Value) : Eval Value := do
  let count ← Builtin.len.call [a] line
  binary .add count (← Builtin.len.call [b] line) line

/-- The length of the sum of two values. -/
def lenJoined (line : Nat) (a b : Value) : Eval Value := do
  Builtin.len.call [← binary .add a b line] line

/-- One array made from another by `push`, once for each value in order. -/
def pushAll (line : Nat) (a : Value) (xs : List Value) : Eval Value :=
  xs.foldlM (fun a x => Builtin.push.call [a, x] line) a

/-- The values that come out of an array if, until its length is zero, `first` is taken from it and
then `rest`. -/
inductive Drains (line : Nat) : Value → Machine → List Value → Prop
  | done {a : Value} {m m' : Machine} :
      (Builtin.len.call [a] line).outcome m = (.ok (.int 0), m') → Drains line a m []
  | step {a b x : Value} {n : Int64} {m m₁ m₂ m₃ : Machine} {xs : List Value} :
      (Builtin.len.call [a] line).outcome m = (.ok (.int n), m₁) → n ≠ 0 →
      (Builtin.first.call [a] line).outcome m₁ = (.ok x, m₂) →
      (Builtin.rest.call [a] line).outcome m₂ = (.ok b, m₃) →
      Drains line b m₃ xs → Drains line a m (x :: xs)

end Eval

/-- Whatever is asked of a value, the answer is that of a list. -/
structure Value.ShowsList (a : Value) (xs : List Value) (line : Nat) : Prop where
  /-- Its length is the length of the list. -/
  len (m : Machine) : ∃ n : Int64, n.toInt = xs.length ∧
    (Builtin.len.call [a] line).outcome m = (.ok (.int n), m)
  /-- An index below the length gives the element of the list, as does `first` after as many
  times `rest`. -/
  index_within (m : Machine) (i : Int64) : 0 ≤ i.toInt → i.toInt < xs.length →
    ∃ x, xs[i.toInt.toNat]? = some x ∧ (Eval.index a (.int i) line).outcome m = (.ok x, m) ∧
      ((Eval.firstAfter line i.toInt.toNat a).outcome m).1 = .ok x
  /-- Every other index gives null. -/
  index_outside (m : Machine) (i : Int64) : i.toInt < 0 ∨ xs.length ≤ i.toInt →
    (Eval.index a (.int i) line).outcome m = (.ok .null, m)
  /-- The last element is the one whose index is one less than the length. -/
  last (m : Machine) :
    (Builtin.last.call [a] line).outcome m = (Eval.indexLast line a).outcome m
  /-- If there are no elements, the last one is null. -/
  last_of_nil (m : Machine) : xs = [] →
    (Builtin.last.call [a] line).outcome m = (.ok .null, m)
  /-- Taking elements off until there are none gives the list, and nothing else. -/
  drains (m : Machine) (ys : List Value) : Eval.Drains line a m ys ↔ ys = xs

namespace Eval

variable (id : ObjectId) (xs : List Value) (line : Nat) (m : Machine)

/-! ## Builtins on arrays -/

/-- A count as a result, which is a fault if it does not fit. -/
def counted (count : Nat) : Except Interrupt Value :=
  match Number.ofNat? count with
  | some n => .ok (.int n)
  | none => .error (.failed ⟨.overflow, line⟩)

lemma outcome_len_array :
    (Builtin.len.call [.array id xs] line).outcome m = (counted line xs.length, m) := by
  change (check line (Builtin.length [.array id xs])).outcome m = _
  rw [outcome_check, Builtin.length_array, counted]
  cases Number.ofNat? xs.length <;> rfl

lemma outcome_len_str (text : String) :
    (Builtin.len.call [.str id text] line).outcome m = (counted line text.length, m) := by
  change (check line (Builtin.length [.str id text])).outcome m = _
  rw [outcome_check, Builtin.length_str, counted]
  cases Number.ofNat? text.length <;> rfl

lemma outcome_first_array :
    (Builtin.first.call [.array id xs] line).outcome m = (.ok (xs.head?.getD .null), m) := rfl

lemma outcome_last_array :
    (Builtin.last.call [.array id xs] line).outcome m = (.ok (xs.getLast?.getD .null), m) := rfl

lemma outcome_rest_cons (x : Value) :
    (Builtin.rest.call [.array id (x :: xs)] line).outcome m =
      (.ok (.array m.nextObject xs), { m with nextObject := m.nextObject + 1 }) := rfl

lemma outcome_push_array (v : Value) :
    (Builtin.push.call [.array id xs, v] line).outcome m =
      (.ok (.array m.nextObject (xs ++ [v])), { m with nextObject := m.nextObject + 1 }) := rfl

variable {xs line m}

lemma counted_eq_ok_iff {count : Nat} {n : Int64} :
    counted line count = .ok (.int n) ↔ n.toInt = count := by
  rw [← Number.ofInt?_eq_some_iff, counted, ← Number.ofNat?]
  cases Number.ofNat? count <;> simp

lemma exists_counted (line : Nat) {count : Nat} (h : (count : Int) ≤ Number.greatest) :
    ∃ n : Int64, n.toInt = count ∧ counted line count = .ok (.int n) := by
  obtain ⟨n, -, hn⟩ := Number.exists_ofNat? h
  exact ⟨n, hn, counted_eq_ok_iff.2 hn⟩

lemma outcome_index_within {i : Int64} {x : Value} (hi : 0 ≤ i.toInt)
    (hx : xs[i.toInt.toNat]? = some x) :
    (index (.array id xs) (.int i) line).outcome m = (.ok x, m) := by
  have hlt : i.toInt.toNat < xs.length := (List.getElem?_eq_some_iff.1 hx).1
  have hposition : Number.position? i xs.length = some i.toInt.toNat :=
    if_pos ⟨hi, by omega⟩
  have helement : (Value.array id xs).elementAt (.int i) = .ok x := by
    simp only [Value.elementAt, hposition, List.getD_eq_getElem?_getD, hx, Option.getD_some]
  rw [index, outcome_check, helement]
  rfl

lemma outcome_index_outside {i : Int64} (hi : i.toInt < 0 ∨ xs.length ≤ i.toInt) :
    (index (.array id xs) (.int i) line).outcome m = (.ok .null, m) := by
  have hposition : Number.position? i xs.length = none := if_neg (by omega)
  have helement : (Value.array id xs).elementAt (.int i) = .ok .null := by
    simp only [Value.elementAt, hposition]
  rw [index, outcome_check, helement]
  rfl

/-- One can be taken from every length. -/
lemma outcome_sub_one (line : Nat) (m : Machine) {n : Int64} (hn : 0 ≤ n.toInt) :
    ∃ k : Int64, k.toInt = n.toInt - 1 ∧
      (binary .sub (.int n) (.int 1) line).outcome m = (.ok (.int k), m) := by
  have hfits : Number.Fits (n.toInt - 1) := by
    have hlt := n.toInt_lt
    unfold Number.Fits Number.least Number.greatest
    omega
  have hword : Number.sub? n 1 = some (Int64.ofInt (n.toInt - 1)) := if_pos hfits
  refine ⟨Int64.ofInt (n.toInt - 1), Number.ofInt?_eq_some_iff.1 hword, ?_⟩
  change (check line (BinaryOp.onIntegers .sub n 1)).outcome m = _
  rw [outcome_check]
  simp only [BinaryOp.onIntegers, hword]
  rfl

/-! ## One list behind all of them -/

/-- What is left of an array after some elements were taken off has the rest of the list. -/
lemma outcome_restTimes (line : Nat) (m : Machine) {n : Nat} (hn : n ≤ xs.length) :
    ∃ id' m', (restTimes line n (.array id xs)).outcome m = (.ok (.array id' (xs.drop n)), m') := by
  induction n generalizing id xs m with
  | zero => exact ⟨id, m, rfl⟩
  | succ n ih =>
    cases xs with
    | nil => exact absurd hn (by simp)
    | cons x xs =>
      have hle : n ≤ xs.length := by simpa using hn
      obtain ⟨id', m', hrest⟩ := ih m.nextObject { m with nextObject := m.nextObject + 1 } hle
      refine ⟨id', m', ?_⟩
      rw [restTimes, outcome_bind_of_ok (outcome_rest_cons id xs line m x)]
      exact hrest

lemma outcome_firstAfter {n : Nat} {x : Value} (hx : xs[n]? = some x) :
    ((firstAfter line n (.array id xs)).outcome m).1 = .ok x := by
  have hn : n < xs.length := (List.getElem?_eq_some_iff.1 hx).1
  obtain ⟨id', m', hrest⟩ := outcome_restTimes id line m (Nat.le_of_lt hn)
  rw [firstAfter, outcome_bind_of_ok hrest, outcome_first_array, List.head?_drop, hx]
  rfl

lemma outcome_indexLast (hlen : (xs.length : Int) ≤ Number.greatest) :
    (indexLast line (.array id xs)).outcome m = (.ok (xs.getLast?.getD .null), m) := by
  obtain ⟨n, hn, hcounted⟩ := exists_counted line hlen
  have hcount : (Builtin.len.call [.array id xs] line).outcome m = (.ok (.int n), m) := by
    rw [outcome_len_array, hcounted]
  obtain ⟨k, hk, hsub⟩ := outcome_sub_one line m (n := n) (by omega)
  rw [indexLast, outcome_bind_of_ok hcount, outcome_bind_of_ok hsub]
  rcases hlast : xs.getLast? with _ | x
  · -- without elements the index is minus one
    obtain rfl : xs = [] := List.getLast?_eq_none_iff.1 hlast
    exact outcome_index_outside id (Or.inl (by rw [hk, hn]; simp))
  · have hne : xs ≠ [] := by
      rintro rfl
      exact absurd hlast (by simp)
    have hpos : 0 < xs.length := List.length_pos_of_ne_nil hne
    refine outcome_index_within id (by omega) ?_
    rw [show k.toInt.toNat = xs.length - 1 by omega, ← List.getLast?_eq_getElem?, hlast,
      Option.getD_some]

lemma drains_array (hlen : (xs.length : Int) ≤ Number.greatest) :
    Drains line (.array id xs) m xs := by
  induction xs generalizing id m with
  | nil => exact .done (outcome_len_array id [] line m)
  | cons x xs ih =>
    obtain ⟨n, hn, hcounted⟩ := exists_counted line hlen
    have hcount : (Builtin.len.call [.array id (x :: xs)] line).outcome m = (.ok (.int n), m) := by
      rw [outcome_len_array, hcounted]
    have hne : n ≠ 0 := by
      rintro rfl
      exact absurd hn (by simp [List.length_cons]; omega)
    rw [List.length_cons] at hlen
    exact .step hcount hne (outcome_first_array id _ line m) (outcome_rest_cons id xs line m x)
      (ih _ (by omega))

/-- Nothing else can be drained from an array: its length says when to stop. -/
lemma Drains.eq_of_array {a : Value} {ys : List Value} (h : Drains line a m ys)
    (ha : a = .array id xs) : ys = xs := by
  induction h generalizing id xs with
  | done hcount =>
    subst ha
    rw [outcome_len_array] at hcount
    have hzero : (0 : Int64).toInt = xs.length := counted_eq_ok_iff.1 (Prod.mk.inj hcount).1
    exact (List.length_eq_zero_iff.1 (by simpa using hzero.symm)).symm
  | step hcount hne hfirst hrest _ ih =>
    subst ha
    cases xs with
    | nil =>
      rw [outcome_len_array] at hcount
      have hzero := counted_eq_ok_iff.1 (Prod.mk.inj hcount).1
      exact absurd (Int64.toInt_inj.1 hzero) hne
    | cons x xs =>
      obtain ⟨hx, rfl⟩ := Prod.mk.inj hfirst
      obtain ⟨hb, -⟩ := Prod.mk.inj ((outcome_rest_cons id xs line _ x).symm.trans hrest)
      rw [← Except.ok.inj hx, ih _ (Except.ok.inj hb).symm]
      rfl

/-- Every array whose length fits shows the list of its elements. -/
lemma showsList_array (hlen : (xs.length : Int) ≤ Number.greatest) :
    (Value.array id xs).ShowsList xs line where
  len m := by
    obtain ⟨n, hn, hcounted⟩ := exists_counted line hlen
    exact ⟨n, hn, by rw [outcome_len_array, hcounted]⟩
  index_within m i hi hlt := by
    obtain ⟨x, hx⟩ : ∃ x, xs[i.toInt.toNat]? = some x :=
      ⟨_, List.getElem?_eq_getElem (by omega)⟩
    exact ⟨x, hx, outcome_index_within id hi hx, outcome_firstAfter id hx⟩
  index_outside m i hi := outcome_index_outside id hi
  last m := by rw [outcome_last_array, outcome_indexLast id hlen]
  last_of_nil m hnil := by
    rw [outcome_last_array, hnil]
    rfl
  drains m ys := ⟨fun h => h.eq_of_array id rfl, by rintro rfl; exact drains_array id hlen⟩

/-- Values that are pushed stand behind the others in order. -/
lemma outcome_pushAll (xs : List Value) (line : Nat) (m : Machine) (ys : List Value) :
    ∃ id' m', (pushAll line (.array id xs) ys).outcome m = (.ok (.array id' (xs ++ ys)), m') := by
  induction ys generalizing id xs m with
  | nil => exact ⟨id, m, by rw [List.append_nil]; rfl⟩
  | cons y ys ih =>
    obtain ⟨id', m', hrest⟩ :=
      ih m.nextObject (xs ++ [y]) { m with nextObject := m.nextObject + 1 }
    refine ⟨id', m', ?_⟩
    rw [pushAll, List.foldlM_cons, outcome_bind_of_ok (outcome_push_array id xs line m y)]
    rw [List.append_cons xs y ys]
    exact hrest

/-! ## Strings -/

lemma outcome_lenJoined (i j : ObjectId) (s t : String) :
    ((lenJoined line (.str i s) (.str j t)).outcome m).1 = counted line (s.length + t.length) := by
  have hjoin : (binary .add (.str i s) (.str j t) line).outcome m =
      (.ok (.str m.nextObject (s ++ t)), { m with nextObject := m.nextObject + 1 }) := rfl
  rw [lenJoined, outcome_bind_of_ok hjoin, outcome_len_str, String.length_append]

/-- Lengths that are added up fail to fit exactly if their sum does. -/
lemma outcome_lenAdded (i j : ObjectId) (s t : String) :
    ((lenAdded line (.str i s) (.str j t)).outcome m).1 = counted line (s.length + t.length) := by
  rw [lenAdded]
  have hs := outcome_len_str i line m s
  have ht := outcome_len_str j line m t
  unfold counted at hs ht ⊢
  rcases hsn : Number.ofNat? s.length with _ | a
  · rw [hsn] at hs
    rw [outcome_bind_of_error hs, Number.ofNat?_eq_none_of_le hsn (Nat.le_add_right _ _)]
  · rw [hsn] at hs
    rw [outcome_bind_of_ok hs]
    rcases htn : Number.ofNat? t.length with _ | b
    · rw [htn] at ht
      rw [outcome_bind_of_error ht, Number.ofNat?_eq_none_of_le htn (Nat.le_add_left _ _)]
    · rw [htn] at ht
      rw [outcome_bind_of_ok ht]
      have hsum : Number.add? a b = Number.ofNat? (s.length + t.length) := by
        rw [Number.add?, Number.ofNat?, Number.ofInt?_eq_some_iff.1 hsn,
          Number.ofInt?_eq_some_iff.1 htn, Int.natCast_add]
      change ((check line (BinaryOp.onIntegers .add a b)).outcome m).1 = _
      rw [outcome_check]
      simp only [BinaryOp.onIntegers, hsum]
      cases Number.ofNat? (s.length + t.length) <;> rfl

end Eval

/-! ## Second names -/

/-- The builtin that a builtin is a second name of, and itself if it is none. -/
def Builtin.original : Builtin → Builtin
  | head => first
  | tail => rest
  | append => push
  | puts => print
  | b => b

/-- A cause with another builtin as the one that did not take an argument. -/
def Cause.naming (b : Builtin) : Cause → Cause
  | unsupportedArgument _ argument => unsupportedArgument b argument
  | cause => cause

/-- An interrupt with another builtin as the one that did not take an argument. -/
def Interrupt.naming (b : Builtin) : Interrupt → Interrupt
  | failed fault => failed { fault with cause := fault.cause.naming b }
  | i => i

namespace Builtin

lemma elements_naming (b c : Builtin) (args : List Value) :
    b.elements args = (c.elements args).mapError (Cause.naming b) := by
  by_cases hlen : args.length = 1
  · obtain ⟨v, rfl⟩ := List.length_eq_one_iff.1 hlen
    cases v <;> rfl
  · rw [elements_of_ne b hlen, elements_of_ne c hlen]
    rfl

lemma extended_naming (b c : Builtin) (args : List Value) :
    b.extended args = (c.extended args).mapError (Cause.naming b) := by
  by_cases hlen : args.length = 2
  · obtain ⟨v, w, rfl⟩ := List.length_eq_two.1 hlen
    cases v <;> rfl
  · rw [extended_of_ne b hlen, extended_of_ne c hlen]
    rfl

lemma length_naming (args : List Value) :
    length args = (length args).mapError (Cause.naming len) := by
  by_cases hlen : args.length = 1
  · obtain ⟨v, rfl⟩ := List.length_eq_one_iff.1 hlen
    cases v with
    | str id text =>
      rw [length_str]
      cases Number.ofNat? text.length <;> rfl
    | array id xs =>
      rw [length_array]
      cases Number.ofNat? xs.length <;> rfl
    | int _ | bool _ | closure _ _ _ | builtin _ | null => rfl
  · rw [length_of_ne hlen]
    rfl

variable {α : Type} (b : Builtin) (line : Nat) (m : Machine)

/-- Two checked operations that differ in the builtin they name, followed by the same evaluation,
which does not fail. -/
lemma outcome_check_naming {r r' : Except Cause α} (h : r = r'.mapError (Cause.naming b))
    {f : α → Eval Value} (hf : ∀ a, ∃ v m', (f a).outcome m = (.ok v, m')) :
    (Eval.check line r >>= f).outcome m =
      (((Eval.check line r' >>= f).outcome m).1.mapError (Interrupt.naming b),
        ((Eval.check line r' >>= f).outcome m).2) := by
  subst h
  cases r' with
  | error cause => rfl
  | ok a =>
    obtain ⟨v, m', hv⟩ := hf a
    change (f a).outcome m = (((f a).outcome m).1.mapError _, ((f a).outcome m).2)
    rw [hv]
    rfl

lemma outcome_body_naming (args : List Value) :
    (b.body args line).outcome m =
      (((b.original.body args line).outcome m).1.mapError (Interrupt.naming b),
        ((b.original.body args line).outcome m).2) := by
  have hvalue : ∀ v : Value, ∃ v' m', (pure v : Eval Value).outcome m = (.ok v', m') :=
    fun v => ⟨v, m, rfl⟩
  cases b with
  | len =>
    have hchecked := outcome_check_naming len line m (length_naming args) hvalue
    rwa [bind_pure] at hchecked
  | first | head | last =>
    exact outcome_check_naming _ line m (elements_naming _ _ args) fun _ => hvalue _
  | rest | tail =>
    refine outcome_check_naming _ line m (elements_naming _ _ args) fun elements => ?_
    cases elements with
    | nil => exact hvalue _
    | cons _ others => exact ⟨_, _, Eval.outcome_newArray others m⟩
  | push | append =>
    exact outcome_check_naming _ line m (extended_naming _ _ args) fun elements =>
      ⟨_, _, Eval.outcome_newArray elements m⟩
  | print | puts =>
    have hprint := Eval.outcome_printAll args m
    change (args.forM Eval.print >>= fun _ => pure Value.null).outcome m =
      (((args.forM Eval.print >>= fun _ => pure Value.null).outcome m).1.mapError _,
        ((args.forM Eval.print >>= fun _ => pure Value.null).outcome m).2)
    rw [Eval.outcome_bind_of_ok hprint]
    rfl

/-- Under its second name a builtin does what it does, but for the name in a fault. -/
lemma outcome_call_naming (args : List Value) :
    (b.call args line).outcome m =
      (((b.original.call args line).outcome m).1.mapError (Interrupt.naming b),
        ((b.original.call args line).outcome m).2) := by
  have harity : b.original.arity = b.arity := by cases b <;> rfl
  unfold call
  rw [harity]
  cases b.arity.check args.length with
  | ok => exact outcome_body_naming b line m args
  | error count => rfl

end Builtin

/-! ## All of it -/

/-- Arrays agree with lists in everything that programs can ask of them. Take any array of fewer
than `Number.greatest` elements. It shows the list of its elements. To push a value makes another
array and does nothing else: its elements below the old length are the same, its last one is the
value, and it is longer by one. Pushing the elements one by one to an empty array makes an array
with the same content. The length of two joined strings is the sum of their lengths, which is a
fault where the sum does not fit. A builtin that is called by a second name does on all arguments
what it does by its first, but for its name in a fault. -/
theorem Builtin.arrays_agree_with_lists (id : ObjectId) (xs : List Value)
    (hlen : (xs.length : Int) < Number.greatest) (line : Nat) :
    (Value.array id xs).ShowsList xs line ∧
    (∀ v m, ∃ b, (push.call [.array id xs, v] line).outcome m =
        (.ok b, { m with nextObject := m.nextObject + 1 }) ∧
      b = .array m.nextObject (xs ++ [v]) ∧ b.ShowsList (xs ++ [v]) line ∧
      ∀ m', (∀ i : Int64, 0 ≤ i.toInt → i.toInt < xs.length →
          (Eval.index b (.int i) line).outcome m' =
            (Eval.index (.array id xs) (.int i) line).outcome m') ∧
        (last.call [b] line).outcome m' = (.ok v, m') ∧
        ∃ n n' : Int64, (len.call [.array id xs] line).outcome m' = (.ok (.int n), m') ∧
          (len.call [b] line).outcome m' = (.ok (.int n'), m') ∧ n'.toInt = n.toInt + 1) ∧
    (∀ empty m, ∃ b m', (Eval.pushAll line (.array empty []) xs).outcome m = (.ok b, m') ∧
      b.equal (.array id xs) = true) ∧
    (∀ i j s t m, ((Eval.lenJoined line (.str i s) (.str j t)).outcome m).1 =
        ((Eval.lenAdded line (.str i s) (.str j t)).outcome m).1 ∧
      ((s.length + t.length : Nat) ≤ Number.greatest → ∃ n : Int64,
        n.toInt = (s.length + t.length : Nat) ∧
          ((Eval.lenJoined line (.str i s) (.str j t)).outcome m).1 = .ok (.int n))) ∧
    ∀ (b : Builtin) args m, (b.call args line).outcome m =
      (((b.original.call args line).outcome m).1.mapError (Interrupt.naming b),
        ((b.original.call args line).outcome m).2) := by
  have hshows : (Value.array id xs).ShowsList xs line := Eval.showsList_array id (by omega)
  refine ⟨hshows, fun v m => ⟨_, Eval.outcome_push_array id xs line m v, rfl, ?_⟩,
    fun empty m => ?_, fun i j s t m => ⟨?_, fun hfits => ?_⟩,
    fun b args m => outcome_call_naming b line m args⟩
  · have hpushed : (Value.array m.nextObject (xs ++ [v])).ShowsList (xs ++ [v]) line :=
      Eval.showsList_array _ (by simp only [List.length_append, List.length_singleton]; omega)
    refine ⟨hpushed, fun m' => ⟨fun i hi hlt => ?_, ?_, ?_⟩⟩
    · obtain ⟨x, hx, hindex, -⟩ := hshows.index_within m' i hi hlt
      rw [hindex]
      refine Eval.outcome_index_within _ hi ?_
      rw [List.getElem?_append_left (by omega), hx]
    · rw [Eval.outcome_last_array, List.getLast?_concat]
      rfl
    · obtain ⟨n, hn, hcount⟩ := hshows.len m'
      obtain ⟨n', hn', hcount'⟩ := hpushed.len m'
      refine ⟨n, n', hcount, hcount', ?_⟩
      rw [hn, hn', List.length_append, List.length_singleton, Int.natCast_add]
      rfl
  · obtain ⟨id', m', hall⟩ := Eval.outcome_pushAll empty [] line m xs
    exact ⟨_, m', hall, by simp only [List.nil_append, Value.equal, Value.equalAll_self]⟩
  · rw [Eval.outcome_lenJoined, Eval.outcome_lenAdded]
  · obtain ⟨n, hn, hcounted⟩ := Eval.exists_counted line hfits
    exact ⟨n, hn, by rw [Eval.outcome_lenJoined, hcounted]⟩

/-- An array that holds another: what is drained from it is its two elements, and `tail` of a number
names `tail`. -/
theorem Builtin.arrays_agree_with_lists_of_two :
    let xs : List Value := [.array 3 [.int 7], .null]
    Eval.Drains 5 (.array 4 xs) Machine.initial xs ∧
      (Eval.index (.array 4 xs) (.int 2) 5).outcome Machine.initial = (.ok .null, Machine.initial) ∧
      (tail.call [.int 1] 5).outcome Machine.initial =
        (.error (.failed ⟨.unsupportedArgument tail .int, 5⟩), Machine.initial) := by
  intro xs
  have hall := Builtin.arrays_agree_with_lists 4 xs (by decide) 5
  exact ⟨(hall.1.drains _ _).2 rfl, hall.1.index_outside _ 2 (Or.inr (by decide)),
    hall.2.2.2.2 tail [.int 1] Machine.initial⟩

end Bhasha
