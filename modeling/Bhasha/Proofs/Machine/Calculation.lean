import Bhasha.Proofs.Machine.Outcome

/-!
Integer expressions are exact.

An expression of integer literals, negations and the four operations has a value over the unbounded
integers, unless it divides by zero somewhere. The evaluator calculates with words of 64 bits, but
it never gives a value that is not the exact one: it goes through the tree from left to right,
operands before operators, and it fails at the first node whose exact value does not fit or that
divides by zero. What comes behind that node does not matter, and neither does it help if the value
of the whole expression would fit again.

The main result is `Calculation.evaluates_exactly`.
-/

namespace Bhasha

/-! ## Calculations -/

/-- The four operations. -/
inductive Calculation.Op where
  | add
  | sub
  | mul
  | div
deriving DecidableEq, Repr

/-- An expression of integer literals, negations and operations between them. -/
inductive Calculation where
  | literal (token : Token) (value : Int64)
  | negation (token : Token) (operand : Calculation)
  | operation (token : Token) (op : Calculation.Op) (left right : Calculation)
deriving DecidableEq, Repr

namespace Calculation

/-- The operator of an operation. -/
def Op.toBinaryOp : Op → BinaryOp
  | .add => .add
  | .sub => .sub
  | .mul => .mul
  | .div => .div

/-- The expression. -/
def toExpr : Calculation → Expr
  | .literal token value => .int token value
  | .negation token operand => .unary token .neg operand.toExpr
  | .operation token op left right => .binary token op.toBinaryOp left.toExpr right.toExpr

/-- The token of the outermost node; that of an operator, unless the node is a literal. -/
def token : Calculation → Token
  | .literal token _ | .negation token _ | .operation token _ _ _ => token

/-- The nodes of the tree, each behind the nodes of its operands, and those from left to right. -/
def nodes : Calculation → List Calculation
  | .literal token value => [.literal token value]
  | .negation token operand => operand.nodes ++ [.negation token operand]
  | .operation token op left right => left.nodes ++ right.nodes ++ [.operation token op left right]

/-- How deep the tree nests. -/
def height : Calculation → Nat
  | .literal _ _ => 1
  | .negation _ operand => operand.height + 1
  | .operation _ _ left right => max left.height right.height + 1

/-! ## Exact values -/

/-- The operation on unbounded integers. Quotients go towards zero, and there is none by zero. -/
def Op.value? : Op → Int → Int → Option Int
  | .add, a, b => some (a + b)
  | .sub, a, b => some (a - b)
  | .mul, a, b => some (a * b)
  | .div, a, b => if b = 0 then none else some (a.tdiv b)

/-- The value over the unbounded integers; there is none if a divisor is zero. -/
def value? : Calculation → Option Int
  | .literal _ value => some value.toInt
  | .negation _ operand => operand.value?.map (-·)
  | .operation _ op left right =>
    left.value?.bind fun a => right.value?.bind fun b => op.value? a b

/-- The outermost node is a quotient by zero. -/
def DividesByZero : Calculation → Prop
  | .operation _ .div _ right => right.value? = some 0
  | _ => False

/-- The exact value does not fit. -/
def Overflows (c : Calculation) : Prop :=
  ∃ z ∈ c.value?, ¬ Number.Fits z

/-- The outermost node cannot be carried out. -/
def Offends (c : Calculation) : Prop :=
  c.DividesByZero ∨ c.Overflows

lemma not_offends {c : Calculation} : ¬ c.Offends ↔ ¬ c.DividesByZero ∧ ¬ c.Overflows :=
  not_or

instance : (c : Calculation) → Decidable c.DividesByZero
  | .literal _ _ | .negation _ _ | .operation _ .add _ _ | .operation _ .sub _ _
  | .operation _ .mul _ _ => isFalse id
  | .operation _ .div _ right => inferInstanceAs (Decidable (right.value? = some 0))

instance (c : Calculation) : Decidable c.Overflows :=
  inferInstanceAs (Decidable (∃ z ∈ c.value?, ¬ Number.Fits z))

instance (c : Calculation) : Decidable c.Offends :=
  inferInstanceAs (Decidable (_ ∨ _))

/-- The fault of a node that cannot be carried out, on the line of its operator. -/
def fault (c : Calculation) : Fault :=
  ⟨if c.DividesByZero then .divisionByZero else .overflow, c.token.line⟩

/-- The first node, in the order of evaluation, that cannot be carried out. -/
def firstOffence? (c : Calculation) : Option Calculation :=
  c.nodes.find? fun d => decide d.Offends

/-! ## Single nodes -/

lemma value?_of_dividesByZero {c : Calculation} (h : c.DividesByZero) : c.value? = none := by
  match c, h with
  | .operation _ .div left right, h =>
    have hzero : right.value? = some 0 := h
    cases hleft : left.value? <;> simp [value?, Op.value?, hleft, hzero]

/-- A node with an exact value offends if the value does not fit, and its fault is an overflow. -/
lemma offends_iff_of_value? {c : Calculation} {z : Int} (h : c.value? = some z) :
    (c.Offends ↔ ¬ Number.Fits z) ∧ c.fault = ⟨.overflow, c.token.line⟩ := by
  have hzero : ¬ c.DividesByZero := by
    intro hdivides
    rw [value?_of_dividesByZero hdivides] at h
    cases h
  refine ⟨?_, by rw [fault, if_neg hzero]⟩
  simp [Offends, Overflows, hzero, h]

/-- The result of an integer that has to fit. -/
def fitting (z : Int) : Except Cause Value :=
  match Number.ofInt? z with
  | some n => .ok (.int n)
  | none => .error .overflow

/-- The operations on words are those on unbounded integers, as long as the results fit. -/
lemma Op.onIntegers_eq (op : Op) (a b : Int64) :
    op.toBinaryOp.onIntegers a b =
      match op.value? a.toInt b.toInt with
      | some z => fitting z
      | none => .error .divisionByZero := by
  cases op with
  | add | sub | mul => rfl
  | div =>
    have hzero : b.toInt = 0 ↔ b = 0 := by rw [← Int64.toInt_inj, Int64.toInt_zero]
    by_cases hb : b = 0
    · simp [toBinaryOp, BinaryOp.onIntegers, value?, hb]
    · simp only [toBinaryOp, BinaryOp.onIntegers, value?, hzero, if_neg hb]
      rfl

/-- The evaluation gives the exact value if no node offends, and else the fault of the first one
that does. It leaves the machine as it was. -/
def Settles (c : Calculation) (first? : Option Calculation) (x : Eval Value) (m : Machine) : Prop :=
  match first? with
  | none => ∃ n : Int64, c.value? = some n.toInt ∧ x.outcome m = (.ok (.int n), m)
  | some d => x.outcome m = (.error (.failed d.fault), m)

/-- The node itself, when its operands have been evaluated. -/
lemma settles_check {c : Calculation} {z : Int} (h : c.value? = some z) (m : Machine) :
    c.Settles (if c.Offends then some c else none) (Eval.check c.token.line (fitting z)) m := by
  obtain ⟨hoffends, hfault⟩ := offends_iff_of_value? h
  rcases hfit : Number.ofInt? z with _ | n
  · have hnot : ¬ Number.Fits z := Number.ofInt?_eq_none_iff.1 hfit
    rw [if_pos (hoffends.2 hnot), Settles, Eval.outcome_check, fitting, hfit, hfault]
    rfl
  · have hn : n.toInt = z := Number.ofInt?_eq_some_iff.1 hfit
    have hfits : Number.Fits z := by
      by_contra hnot
      rw [Number.ofInt?_eq_none_iff.2 hnot] at hfit
      cases hfit
    rw [if_neg (by rwa [hoffends, not_not]), Settles]
    refine ⟨n, by rw [h, hn], ?_⟩
    rw [Eval.outcome_check, fitting, hfit]
    rfl

lemma Op.eq_div_of_value?_eq_none {op : Op} {a b : Int} (h : op.value? a b = none) :
    op = .div ∧ b = 0 := by
  cases op with
  | add | sub | mul => cases h
  | div => simpa [value?] using h

/-- An operation, when both of its operands have been evaluated. -/
lemma settles_binary {token : Token} {op : Op} {left right : Calculation} {a b : Int64}
    (ha : left.value? = some a.toInt) (hb : right.value? = some b.toInt) (m : Machine) :
    (operation token op left right).Settles
      (if (operation token op left right).Offends then
        some (operation token op left right) else none)
      (Eval.binary op.toBinaryOp (.int a) (.int b) token.line) m := by
  have hself : (operation token op left right).value? = op.value? a.toInt b.toInt := by
    rw [value?, ha, hb]
    rfl
  show Settles _ _ (Eval.check token.line (op.toBinaryOp.onIntegers a b)) m
  rw [Op.onIntegers_eq]
  cases hexact : op.value? a.toInt b.toInt with
  | some z => exact settles_check (hself.trans hexact) m
  | none =>
    obtain ⟨rfl, hzero⟩ := Op.eq_div_of_value?_eq_none hexact
    have hdivides : (operation token .div left right).DividesByZero := by
      show right.value? = some 0
      rw [hb, hzero]
    have hoffends : (operation token .div left right).Offends := Or.inl hdivides
    rw [if_pos hoffends, Settles, fault, if_pos hdivides]
    rfl

/-! ## Whole trees -/

lemma firstOffence?_literal (token : Token) (n : Int64) :
    (literal token n).firstOffence? = none := by
  have hfits : Number.Fits n.toInt := by
    by_contra hnot
    have hnone := Number.ofInt?_eq_none_iff.2 hnot
    rw [Number.ofInt?_eq_some_iff.2 rfl] at hnone
    cases hnone
  have hoffends : ¬ (literal token n).Offends := by
    rw [(offends_iff_of_value? rfl).1, not_not]
    exact hfits
  simp [firstOffence?, nodes, hoffends]

lemma firstOffence?_negation (token : Token) (c : Calculation) :
    (negation token c).firstOffence? = c.firstOffence?.or
      (if (negation token c).Offends then some (negation token c) else none) := by
  simp [firstOffence?, nodes, List.find?_append, List.find?_singleton]

lemma firstOffence?_operation (token : Token) (op : Op) (left right : Calculation) :
    (operation token op left right).firstOffence? =
      left.firstOffence?.or (right.firstOffence?.or
        (if (operation token op left right).Offends then some (operation token op left right)
        else none)) := by
  simp [firstOffence?, nodes, List.find?_append, List.find?_singleton]

lemma Settles.congr {c : Calculation} {first? : Option Calculation} {x y : Eval Value} {m : Machine}
    (h : c.Settles first? y m) (heq : x.outcome m = y.outcome m) : c.Settles first? x m := by
  unfold Settles
  rw [heq]
  exact h

/-- A calculation is evaluated node by node, operands first, and the first offence ends it. -/
lemma settles_expression (policy : ReleasePolicy) (env : Env) (m : Machine) (c : Calculation)
    {depth : Nat} (hdepth : c.height ≤ depth) :
    c.Settles c.firstOffence? (Eval.expression policy depth c.toExpr env) m := by
  induction c generalizing depth with
  | literal token value =>
    obtain ⟨depth, rfl⟩ := Nat.exists_eq_add_of_le' hdepth
    rw [firstOffence?_literal]
    exact ⟨value, rfl, rfl⟩
  | negation token c ih =>
    obtain ⟨depth, rfl⟩ : ∃ k, depth = k + 1 := ⟨depth - 1, by simp only [height] at hdepth; omega⟩
    have hoperand := ih (Nat.le_of_succ_le_succ hdepth)
    rw [firstOffence?_negation]
    cases hfirst : c.firstOffence? with
    | none =>
      rw [hfirst] at hoperand
      obtain ⟨n, hexact, hout⟩ := hoperand
      have hself : (negation token c).value? = some (-n.toInt) := by
        rw [value?, hexact]
        rfl
      exact (settles_check hself m).congr (Eval.outcome_bind_of_ok hout _)
    | some d =>
      rw [hfirst] at hoperand
      exact Eval.outcome_bind_of_error hoperand _
  | operation token op left right ihl ihr =>
    obtain ⟨depth, rfl⟩ : ∃ k, depth = k + 1 := ⟨depth - 1, by simp only [height] at hdepth; omega⟩
    have hheight : max left.height right.height ≤ depth := Nat.le_of_succ_le_succ hdepth
    have hleft := ihl (Nat.le_trans (Nat.le_max_left _ _) hheight)
    have hright := ihr (Nat.le_trans (Nat.le_max_right _ _) hheight)
    rw [firstOffence?_operation]
    cases hfirst : left.firstOffence? with
    | some d =>
      rw [hfirst] at hleft
      exact Eval.outcome_bind_of_error hleft _
    | none =>
      rw [hfirst] at hleft
      obtain ⟨a, ha, hout⟩ := hleft
      -- the left operand is behind us, so the right one decides
      refine Settles.congr ?_ (Eval.outcome_bind_of_ok hout _)
      cases hfirst' : right.firstOffence? with
      | some d =>
        rw [hfirst'] at hright
        exact Eval.outcome_bind_of_error hright _
      | none =>
        rw [hfirst'] at hright
        obtain ⟨b, hb, hout'⟩ := hright
        exact (settles_binary ha hb m).congr (Eval.outcome_bind_of_ok hout' _)

/-- Integer expressions compute exactly or fail at the right place. Take any tree of integer
literals, negations and the four operations, any environment and any machine, and let the
evaluation nest as deep as the tree. If no node divides by zero and the exact value of every node
fits, the evaluation gives the exact value of the tree. Otherwise it gives the fault of the first
node, in the order of evaluation, for which this is not so: a division by zero if it is one and an
overflow if not, on the line of its operator. The machine is left as it was in both cases. -/
theorem evaluates_exactly (policy : ReleasePolicy) (env : Env) (m : Machine) (c : Calculation)
    (depth : Nat) (hdepth : c.height ≤ depth) :
    ((∀ d ∈ c.nodes, ¬ d.DividesByZero ∧ ¬ d.Overflows) →
      ∃ n : Int64, c.value? = some n.toInt ∧
        (Eval.expression policy depth c.toExpr env).outcome m = (.ok (.int n), m)) ∧
    ∀ before d after, c.nodes = before ++ d :: after →
      (∀ b ∈ before, ¬ b.DividesByZero ∧ ¬ b.Overflows) → d.DividesByZero ∨ d.Overflows →
      (Eval.expression policy depth c.toExpr env).outcome m =
        (.error (.failed ⟨if d.DividesByZero then .divisionByZero else .overflow, d.token.line⟩),
          m) := by
  have hsettles := settles_expression policy env m c hdepth
  constructor
  · intro hfine
    have hnone : c.firstOffence? = none := by
      rw [firstOffence?, List.find?_eq_none]
      intro d hd
      simpa using not_offends.2 (hfine d hd)
    rwa [hnone] at hsettles
  · intro before d after hnodes hbefore hd
    have hsome : c.firstOffence? = some d := by
      rw [firstOffence?, List.find?_eq_some_iff_append]
      refine ⟨decide_eq_true hd, before, after, hnodes, fun b hb => ?_⟩
      simpa using not_offends.2 (hbefore b hb)
    rwa [hsome] at hsettles

/-- The least integer is calculated as a difference. Its quotient by minus one is an overflow on
line 3, and a division by zero further right is not reached. -/
theorem evaluates_exactly_of_least :
    let least : Calculation := .operation ⟨.minus, "-", 2⟩ .sub
      (.negation ⟨.minus, "-", 1⟩ (.literal ⟨.int, "9223372036854775807", 1⟩ 9223372036854775807))
      (.literal ⟨.int, "1", 2⟩ 1)
    let minusOne : Calculation := .negation ⟨.minus, "-", 4⟩ (.literal ⟨.int, "1", 4⟩ 1)
    let whole : Calculation := .operation ⟨.asterisk, "*", 5⟩ .mul
      (.operation ⟨.slash, "/", 3⟩ .div least minusOne)
      (.operation ⟨.slash, "/", 6⟩ .div (.literal ⟨.int, "7", 6⟩ 7) (.literal ⟨.int, "0", 6⟩ 0))
    least.height ≤ 5 ∧ whole.height ≤ 5 ∧
    (∀ d ∈ least.nodes, ¬ d.DividesByZero ∧ ¬ d.Overflows) ∧
    (∃ n : Int64, least.value? = some n.toInt ∧
      (Eval.expression .eager 5 least.toExpr Env.global).outcome Machine.initial =
        (.ok (.int n), Machine.initial)) ∧
    (Eval.expression .eager 5 whole.toExpr Env.global).outcome Machine.initial =
      (.error (.failed ⟨.overflow, 3⟩), Machine.initial) := by
  intro least minusOne whole
  have hleast : least.height ≤ 5 := by decide +zetaReduce
  have hwhole : whole.height ≤ 5 := by decide +zetaReduce
  have hfine : ∀ d ∈ least.nodes, ¬ d.DividesByZero ∧ ¬ d.Overflows := by decide +zetaReduce
  refine ⟨hleast, hwhole, hfine, ?_, ?_⟩
  · exact (evaluates_exactly .eager Env.global Machine.initial least 5 hleast).1 hfine
  · exact (evaluates_exactly .eager Env.global Machine.initial whole 5 hwhole).2
      (least.nodes ++ minusOne.nodes) (.operation ⟨.slash, "/", 3⟩ .div least minusOne) _ rfl
      (by decide +zetaReduce) (by decide +zetaReduce)

end Calculation

end Bhasha
