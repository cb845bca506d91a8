import Bhasha.Proofs.Machine.Evolution
import Mathlib.Data.List.Basic

/-!
Evaluations leave no dangling handle.

`Eval.Safe` says of an evaluation in an environment that, however it ends, it does no more to the
machine than `Machine.Evolves` allows, and that what it hands on holds handles with frames only.
It is proved for each construct from the evaluation of its parts, and then for all expressions by
induction on the depth to which they may nest.
-/

namespace Bhasha

/-- The environments that an interrupt holds: a return holds those of its value. -/
def Interrupt.Holds : Interrupt → Env → Prop
  | .returned v => v.Holds
  | .failed _ | .exhausted => fun _ => False

/-- The environments that the end of an evaluation holds. -/
def Eval.OutcomeHolds {α : Type} (holds : α → Env → Prop) : Except Interrupt α → Env → Prop
  | .ok a => holds a
  | .error i => i.Holds

/-- A value that is no object: it has no identity of its own, and it holds nothing. -/
inductive Value.Plain : Value → Prop
  | int (n : Int64) : Plain (.int n)
  | bool (b : Bool) : Plain (.bool b)
  | null : Plain .null
  | builtin (b : Builtin) : Plain (.builtin b)

lemma Value.Plain.not_holds {v : Value} (h : v.Plain) (e : Env) : ¬ v.Holds e := by
  intro he
  cases h <;> cases he

/-! ## Safe evaluations -/

namespace Eval

variable {policy : ReleasePolicy} {env : Env} {m : Machine} {α β : Type}
  {holds : α → Env → Prop} {holds' : β → Env → Prop}

/-- An evaluation in an environment is safe on a machine if, however it ends, it does no more to
the machine than an evaluation can, and what it hands on holds no dangling handle. -/
def Safe (policy : ReleasePolicy) (env : Env) (holds : α → Env → Prop) (x : Eval α)
    (m : Machine) : Prop :=
  m.Evolves policy env (x.outcome m).2 ∧
    ∀ e, OutcomeHolds holds (x.outcome m).1 e → (x.outcome m).2.heap.contains e

/-- The environments held by the values in an option or a list. -/
def HeldIn {c : Type} [Membership Value c] (values : c) (e : Env) : Prop :=
  ∃ v ∈ values, v.Holds e

lemma Safe.pure (hs : m.heap.Sound) {a : α} (ha : ∀ e, holds a e → m.heap.contains e) :
    Safe policy env holds (pure a) m :=
  ⟨.refl hs, ha⟩

lemma Safe.fail (hs : m.heap.Sound) (cause : Cause) (line : Nat) :
    Safe policy env holds (fail cause line : Eval α) m :=
  ⟨.refl hs, fun _ he => he.elim⟩

lemma Safe.bind {x : Eval α} {f : α → Eval β} (hx : Safe policy env holds x m)
    (hf : ∀ a m₁, m.Evolves policy env m₁ → (∀ e, holds a e → m₁.heap.contains e) →
      Safe policy env holds' (f a) m₁) :
    Safe policy env holds' (x >>= f) m := by
  obtain ⟨hev, hheld⟩ := hx
  rcases hout : x.outcome m with ⟨_ | a, m₁⟩
  · rw [hout] at hev hheld
    rw [Safe, outcome_bind_of_error hout]
    exact ⟨hev, hheld⟩
  · rw [hout] at hev hheld
    obtain ⟨hev', hheld'⟩ := hf a m₁ hev hheld
    rw [Safe, outcome_bind_of_ok hout]
    exact ⟨hev.trans hev', hheld'⟩

lemma Safe.check (hs : m.heap.Sound) {r : Except Cause α} (line : Nat)
    (hr : ∀ a, r = .ok a → ∀ e, holds a e → m.heap.contains e) :
    Safe policy env holds (check line r) m := by
  rw [Safe, outcome_check]
  refine ⟨.refl hs, fun e he => ?_⟩
  cases r with
  | error cause => exact he.elim
  | ok a => exact hr a rfl e he

lemma Safe.newString (hs : m.heap.Sound) (text : String) :
    Safe policy env Value.Holds (newString text) m :=
  ⟨.of_eq hs rfl rfl, fun _ he => nomatch he⟩

lemma Safe.newArray (hs : m.heap.Sound) {elements : List Value}
    (hheld : ∀ e, HeldIn elements e → m.heap.contains e) :
    Safe policy env Value.Holds (newArray elements) m := by
  refine ⟨.of_eq hs rfl rfl, fun e he => ?_⟩
  rw [outcome_newArray] at he
  cases he with
  | element hv hold => exact hheld e ⟨_, hv, hold⟩

lemma Safe.newClosure (hs : m.heap.Sound) (lambda : Lambda) (henv : m.heap.contains env) :
    Safe policy env Value.Holds (newClosure lambda env) m := by
  refine ⟨.of_eq hs rfl rfl, fun e he => ?_⟩
  rw [outcome_newClosure] at he
  cases he with
  | closure => exact henv

lemma Safe.lookup (hs : m.heap.Sound) (id : Identifier) :
    Safe policy env Value.Holds (lookup env id) m := by
  rw [Safe, outcome_lookup]
  refine ⟨.refl hs, fun e he => ?_⟩
  split at he
  · rename_i v hv
    exact hs.closed.contains_of_get? hv he
  · split at he
    · cases he
    · exact he.elim

/-! ## Operators -/

lemma plain_onIntegers {op : BinaryOp} {a b : Int64} {v : Value}
    (hv : op.onIntegers a b = .ok v) : v.Plain := by
  simp only [BinaryOp.onIntegers] at hv
  cases op with
  | add | sub | mul =>
    simp only at hv
    split at hv
    · obtain rfl := Except.ok.inj hv
      exact .int _
    · cases hv
  | div =>
    simp only at hv
    split at hv
    · cases hv
    · split at hv
      · obtain rfl := Except.ok.inj hv
        exact .int _
      · cases hv
  | lt | gt | eq | ne =>
    obtain rfl := Except.ok.inj hv
    exact .bool _

lemma plain_onIdentity {op : BinaryOp} {left right v : Value}
    (hv : op.onIdentity left right = .ok v) : v.Plain := by
  cases op with
  | eq | ne =>
    obtain rfl := Except.ok.inj hv
    exact .bool _
  | add | sub | mul | div | lt | gt => exact absurd hv (by simp [BinaryOp.onIdentity])

lemma plain_onValue {op : UnaryOp} {operand v : Value} (hv : op.onValue operand = .ok v) :
    v.Plain := by
  unfold UnaryOp.onValue at hv
  split at hv
  · obtain rfl := Except.ok.inj hv
    exact .bool _
  · split at hv
    · obtain rfl := Except.ok.inj hv
      exact .int _
    · exact absurd hv (by simp)
  · exact absurd hv (by simp)

/-- What an index yields is an element of an array, or null. -/
lemma eq_null_or_mem_of_elementAt {base index v : Value} (hv : base.elementAt index = .ok v) :
    v = .null ∨ ∃ id elements, base = .array id elements ∧ v ∈ elements := by
  unfold Value.elementAt at hv
  split at hv
  · rename_i id elements n
    split at hv
    · rename_i i hi
      obtain rfl := Except.ok.inj hv
      rw [List.getD_eq_getElem?_getD]
      rcases hget : elements[i]? with _ | w
      · exact Or.inl rfl
      · exact Or.inr ⟨id, elements, rfl, List.mem_of_getElem? hget⟩
    · exact Or.inl (Except.ok.inj hv).symm
  · exact absurd hv (by simp)

lemma holds_of_elementAt {base index v : Value} (hv : base.elementAt index = .ok v) {e : Env}
    (he : v.Holds e) : base.Holds e := by
  obtain rfl | ⟨id, elements, rfl, hmem⟩ := eq_null_or_mem_of_elementAt hv
  · cases he
  · exact .element hmem he

lemma Safe.binary (hs : m.heap.Sound) (op : BinaryOp) (left right : Value) (line : Nat) :
    Safe policy env Value.Holds (binary op left right line) m := by
  unfold Eval.binary
  split
  · exact .check hs line fun v hv e he => absurd he ((plain_onIntegers hv).not_holds e)
  · rename_i s _ t
    have hjoin : Safe policy env (fun _ _ => False) (Eval.check line (op.onStrings s t)) m :=
      .check hs line (by simp)
    exact hjoin.bind fun text m₁ hev _ => .newString hev.sound text
  · split
    · exact .check hs line fun v hv e he => absurd he ((plain_onIdentity hv).not_holds e)
    · exact .fail hs _ line

lemma Safe.unary (hs : m.heap.Sound) (op : UnaryOp) (operand : Value) (line : Nat) :
    Safe policy env Value.Holds (unary op operand line) m :=
  .check hs line fun _ hv e he => absurd he ((plain_onValue hv).not_holds e)

lemma Safe.index (hs : m.heap.Sound) {base : Value} (index : Value) (line : Nat)
    (hheld : ∀ e, base.Holds e → m.heap.contains e) :
    Safe policy env Value.Holds (Eval.index base index line) m :=
  .check hs line fun _ hv e he => hheld e (holds_of_elementAt hv he)

end Eval

/-! ## Builtins -/

lemma exactArgs_of_ne {n : Nat} {args : List Value} (h : args.length ≠ n) :
    exactArgs n args = .error (.argumentCount n args.length) :=
  dif_neg h

namespace Builtin

lemma elements_of_ne (b : Builtin) {args : List Value} (h : args.length ≠ 1) :
    b.elements args = .error (.argumentCount 1 args.length) := by
  unfold elements
  rw [exactArgs_of_ne h]
  rfl

lemma extended_of_ne (b : Builtin) {args : List Value} (h : args.length ≠ 2) :
    b.extended args = .error (.argumentCount 2 args.length) := by
  unfold extended
  rw [exactArgs_of_ne h]
  rfl

lemma length_of_ne {args : List Value} (h : args.length ≠ 1) :
    Builtin.length args = .error (.argumentCount 1 args.length) := by
  unfold length
  rw [exactArgs_of_ne h]
  rfl

lemma elements_array (b : Builtin) (id : ObjectId) (xs : List Value) :
    b.elements [.array id xs] = .ok xs := rfl

lemma extended_array (b : Builtin) (id : ObjectId) (xs : List Value) (v : Value) :
    b.extended [.array id xs, v] = .ok (xs ++ [v]) := rfl

lemma length_array (id : ObjectId) (xs : List Value) :
    Builtin.length [.array id xs] = (match Number.ofNat? xs.length with
      | some n => .ok (.int n)
      | none => .error .overflow : Except Cause Value) := rfl

lemma length_str (id : ObjectId) (text : String) :
    Builtin.length [.str id text] = (match Number.ofNat? text.length with
      | some n => .ok (.int n)
      | none => .error .overflow : Except Cause Value) := rfl

/-- A builtin on arrays gets the elements of its one argument. -/
lemma eq_of_elements_eq_ok {b : Builtin} {args elements : List Value}
    (h : b.elements args = .ok elements) : ∃ id, args = [.array id elements] := by
  by_cases hlen : args.length = 1
  · obtain ⟨v, rfl⟩ := List.length_eq_one_iff.1 hlen
    cases v with
    | array id xs =>
      obtain rfl : xs = elements := Except.ok.inj h
      exact ⟨id, rfl⟩
    | _ => cases h
  · rw [elements_of_ne b hlen] at h
    cases h

lemma eq_of_extended_eq_ok {b : Builtin} {args elements : List Value}
    (h : b.extended args = .ok elements) :
    ∃ id xs v, args = [.array id xs, v] ∧ elements = xs ++ [v] := by
  by_cases hlen : args.length = 2
  · obtain ⟨v, w, rfl⟩ := List.length_eq_two.1 hlen
    cases v with
    | array id xs => exact ⟨id, xs, w, rfl, (Except.ok.inj h).symm⟩
    | _ => cases h
  · rw [extended_of_ne b hlen] at h
    cases h

lemma eq_of_length_eq_ok {args : List Value} {v : Value} (h : Builtin.length args = .ok v) :
    ∃ n, v = .int n := by
  by_cases hlen : args.length = 1
  · obtain ⟨w, rfl⟩ := List.length_eq_one_iff.1 hlen
    have hcount : ∀ count : Nat, (match Number.ofNat? count with
        | some n => Except.ok (.int n)
        | none => .error .overflow : Except Cause Value) = .ok v → ∃ n, v = .int n := by
      intro count hc
      split at hc
      · exact ⟨_, (Except.ok.inj hc).symm⟩
      · cases hc
    cases w with
    | str id text => exact hcount text.length h
    | array id xs => exact hcount xs.length h
    | _ => cases h
  · rw [length_of_ne hlen] at h
    cases h

end Builtin

namespace Eval

variable {policy : ReleasePolicy} {env : Env} {m : Machine}

lemma Safe.printAll (hs : m.heap.Sound) (values : List Value) :
    Safe policy env (fun _ _ => False) (values.forM print) m := by
  induction values generalizing m with
  | nil => exact .pure hs (by simp)
  | cons v values ih =>
    have hprint : Safe policy env (fun _ _ => False) (print v) m :=
      ⟨.of_eq hs rfl rfl, fun _ he => he.elim⟩
    exact hprint.bind fun _ m₁ hev _ => ih hev.sound

lemma Safe.builtinBody (hs : m.heap.Sound) (b : Builtin) {args : List Value} (line : Nat)
    (hheld : ∀ e, HeldIn args e → m.heap.contains e) :
    Safe policy env Value.Holds (b.body args line) m := by
  have helements : Safe policy env HeldIn (Eval.check line (b.elements args)) m := by
    refine .check hs line fun elements helements e he => hheld e ?_
    obtain ⟨id, rfl⟩ := Builtin.eq_of_elements_eq_ok helements
    obtain ⟨v, hv, hold⟩ := he
    exact ⟨_, List.mem_singleton_self _, .element hv hold⟩
  have hextended : Safe policy env HeldIn (Eval.check line (b.extended args)) m := by
    refine .check hs line fun elements helements e he => hheld e ?_
    obtain ⟨id, xs, v, rfl, rfl⟩ := Builtin.eq_of_extended_eq_ok helements
    obtain ⟨w, hw, hold⟩ := he
    rcases List.mem_append.1 hw with hw | hw
    · exact ⟨_, List.mem_cons_self, .element hw hold⟩
    · exact ⟨w, by simp_all, hold⟩
  -- an element that may be missing is an element or null
  have hpick : ∀ (pick : List Value → Option Value), (∀ xs v, pick xs = some v → v ∈ xs) →
      Safe policy env Value.Holds
        (do return (pick (← Eval.check line (b.elements args))).getD .null) m := by
    intro pick hmem
    refine helements.bind fun elements m₁ hev hheld₁ => .pure hev.sound fun e he => ?_
    rcases hv : pick elements with _ | v
    · rw [hv] at he
      cases he
    · rw [hv] at he
      exact hheld₁ e ⟨v, hmem _ _ hv, he⟩
  cases b with
  | len =>
    refine .check hs line fun v hv e he => ?_
    obtain ⟨n, rfl⟩ := Builtin.eq_of_length_eq_ok hv
    cases he
  | first | head => exact hpick List.head? fun _ _ => List.mem_of_head?
  | last => exact hpick List.getLast? fun _ _ => List.mem_of_getLast?
  | rest | tail =>
    refine helements.bind fun elements m₁ hev hheld₁ => ?_
    cases elements with
    | nil => exact .pure hev.sound fun e he => by cases he
    | cons v others =>
      exact .newArray hev.sound fun e ⟨w, hw, hold⟩ => hheld₁ e ⟨w, by simp [hw], hold⟩
  | push | append => exact hextended.bind fun elements m₁ hev hheld₁ => .newArray hev.sound hheld₁
  | print | puts =>
    exact (Safe.printAll hs args).bind fun _ m₁ hev _ => .pure hev.sound fun e he => by cases he

lemma Safe.builtinCall (hs : m.heap.Sound) (b : Builtin) {args : List Value} (line : Nat)
    (hheld : ∀ e, HeldIn args e → m.heap.contains e) :
    Safe policy env Value.Holds (b.call args line) m := by
  unfold Builtin.call
  split
  · exact .builtinBody hs b line hheld
  · exact .fail hs _ line

/-! ## Constructs -/

/-- An evaluator of expressions whose evaluations are all safe. -/
def SafeEvaluator (policy : ReleasePolicy) (eval : Expr → Env → Eval Value) : Prop :=
  ∀ e env m, m.heap.Sound → m.heap.contains env → Safe policy env Value.Holds (eval e env) m

section Constructs

variable {eval : Expr → Env → Eval Value} (heval : SafeEvaluator policy eval)
include heval

lemma Safe.statement (hs : m.heap.Sound) (henv : m.heap.contains env) (s : Stmt) :
    Safe policy env HeldIn (statement eval s env) m := by
  cases s with
  | bind token id value =>
    refine (heval value env m hs henv).bind fun v m₁ hev hheld => ?_
    have hdefine : Safe policy env (fun _ _ => False) (define env id.name v) m₁ :=
      ⟨.define hev.sound hheld, fun _ he => he.elim⟩
    exact hdefine.bind fun _ m₂ hev' _ => .pure hev'.sound fun e ⟨_, hv, _⟩ => nomatch hv
  | ret token value =>
    exact (heval value env m hs henv).bind fun v m₁ hev hheld => ⟨.refl hev.sound, hheld⟩
  | expr token value =>
    refine (heval value env m hs henv).bind fun v m₁ hev hheld => .pure hev.sound ?_
    rintro e ⟨w, hw, hold⟩
    obtain rfl := Option.some.inj hw
    exact hheld e hold

lemma Safe.statements (hs : m.heap.Sound) (henv : m.heap.contains env) (ss : List Stmt)
    {result : Option Value} (hheld : ∀ e, HeldIn result e → m.heap.contains e) :
    Safe policy env HeldIn (statements eval env result ss) m := by
  induction ss generalizing result m with
  | nil => exact .pure hs hheld
  | cons s rest ih =>
    exact (Safe.statement heval hs henv s).bind fun r m₁ hev hheld₁ =>
      ih hev.sound (hev.contains henv) hheld₁

lemma Safe.block (hs : m.heap.Sound) (henv : m.heap.contains env) (b : Block) :
    Safe policy env HeldIn (block eval b env) m :=
  .statements heval hs henv b.statements fun _ ⟨_, hv, _⟩ => nomatch hv

lemma Safe.expressions (hs : m.heap.Sound) (henv : m.heap.contains env) (es : List Expr) :
    Safe policy env HeldIn (expressions eval env es) m := by
  induction es generalizing m with
  | nil => exact .pure hs fun e ⟨_, hv, _⟩ => nomatch hv
  | cons e rest ih =>
    refine (heval e env m hs henv).bind fun v m₁ hev hheld => ?_
    refine (ih hev.sound (hev.contains henv)).bind fun vs m₂ hev' hheld' => .pure hev'.sound ?_
    rintro d ⟨w, hw, hold⟩
    rcases List.mem_cons.1 hw with rfl | hw
    · exact hev'.contains (hheld d hold)
    · exact hheld' d ⟨w, hw, hold⟩

omit heval in
/-- A call hands on what its result holds, and its body has handed that on to it. -/
lemma holds_callResult {r : Except Interrupt (Option Value)} {e : Env} :
    OutcomeHolds Value.Holds (callResult r) e ↔
      ((callResult r).toOption.getD .null).Holds e := by
  rcases r with (v | fault | _) | value
  · exact Iff.rfl
  · exact ⟨fun he => he.elim, fun he => nomatch he⟩
  · exact ⟨fun he => he.elim, fun he => nomatch he⟩
  · exact Iff.rfl

omit heval in
lemma outcomeHolds_of_callResult {r : Except Interrupt (Option Value)} {e : Env}
    (he : OutcomeHolds Value.Holds (callResult r) e) : OutcomeHolds HeldIn r e := by
  rcases r with (v | fault | _) | (_ | v)
  · exact he
  · exact he
  · exact he
  · cases he
  · exact ⟨v, rfl, he⟩

omit heval in
/-- A call begins with a frame of its own, in which the parameters are bound. -/
lemma enters_call (hs : m.heap.Sound) {captured : Env} (hcaptured : m.heap.contains captured)
    (params : List Identifier) {args : List Value}
    (hheld : ∀ e, HeldIn args e → m.heap.contains e) :
    m.Enters (entered captured m).1
      (bound (entered captured m).1 (params.zip args) (entered captured m).2) := by
  have hentered := Machine.enters_entered hs hcaptured
  refine hentered.bound fun p hp e he => hentered.contains.2 (Or.inl ?_)
  exact hheld e ⟨p.2, (List.of_mem_zip hp).2, he⟩

lemma Safe.applyClosure (hs : m.heap.Sound) (lambda : Lambda) {captured : Env}
    (hcaptured : m.heap.contains captured) {args : List Value} (line : Nat)
    (hheld : ∀ e, HeldIn args e → m.heap.contains e) :
    Safe policy env Value.Holds (applyClosure policy eval lambda captured args line) m := by
  by_cases hlen : lambda.params.length = args.length
  · have hin := enters_call hs hcaptured lambda.params hheld
    obtain ⟨hev, hheld'⟩ := Safe.block heval hin.sound hin.contains_scope lambda.body
    rw [Safe, outcome_applyClosure policy eval hlen captured line m (outcome_enter _ _ _ _) rfl]
    obtain ⟨hev', hresult⟩ := hin.evolves_released hs.closed hev fun e he =>
      hheld' e (outcomeHolds_of_callResult (holds_callResult.2 he))
    exact ⟨hev', fun e he => hresult e (holds_callResult.1 he)⟩
  · unfold Eval.applyClosure
    rw [if_neg hlen]
    exact .fail hs _ line

lemma Safe.apply (hs : m.heap.Sound) {callee : Value} {args : List Value} (line : Nat)
    (hcallee : ∀ e, callee.Holds e → m.heap.contains e)
    (hargs : ∀ e, HeldIn args e → m.heap.contains e) :
    Safe policy env Value.Holds (apply policy eval callee args line) m := by
  cases callee with
  | closure id lambda captured =>
    exact .applyClosure heval hs lambda (hcallee captured .closure) line hargs
  | builtin b => exact .builtinCall hs b line hargs
  | int _ | bool _ | str _ _ | array _ _ | null => exact .fail hs _ line

lemma Safe.branch (hs : m.heap.Sound) (henv : m.heap.contains env) (b? : Option Block) :
    Safe policy env Value.Holds (branch eval env b?) m := by
  cases b? with
  | none => exact .pure hs fun e he => by cases he
  | some b =>
    refine (Safe.block heval hs henv b).bind fun value m₁ hev hheld => .pure hev.sound ?_
    intro e he
    cases value with
    | none => cases he
    | some v => exact hheld e ⟨v, rfl, he⟩

/-- A construct is safe if the evaluator of its parts is. -/
lemma Safe.construct (e : Expr) (hs : m.heap.Sound) (henv : m.heap.contains env) :
    Safe policy env Value.Holds (construct policy eval e env) m := by
  cases e with
  | ident id => exact .lookup hs id
  | int token value => exact .pure hs fun e he => by cases he
  | str token value => exact .newString hs value
  | bool token value => exact .pure hs fun e he => by cases he
  | unary token op operand =>
    exact (heval operand env m hs henv).bind fun v m₁ hev _ => .unary hev.sound op v token.line
  | binary token op left right =>
    refine (heval left env m hs henv).bind fun v m₁ hev _ => ?_
    exact (heval right env m₁ hev.sound (hev.contains henv)).bind fun w m₂ hev' _ =>
      .binary hev'.sound op v w token.line
  | cond token condition consequence alternative =>
    exact (heval condition env m hs henv).bind fun v m₁ hev _ =>
      .branch heval hev.sound (hev.contains henv) _
  | function token params body => exact .newClosure hs ⟨token, params, body⟩ henv
  | call token callee args =>
    refine (heval callee env m hs henv).bind fun v m₁ hev hheld => ?_
    refine (Safe.expressions heval hev.sound (hev.contains henv) args).bind
      fun vs m₂ hev' hheld' => ?_
    exact .apply heval hev'.sound token.line (fun e he => hev'.contains (hheld e he)) hheld'
  | array token elements =>
    exact (Safe.expressions heval hs henv elements).bind fun vs m₁ hev hheld =>
      .newArray hev.sound hheld
  | index token base index =>
    refine (heval base env m hs henv).bind fun v m₁ hev hheld => ?_
    exact (heval index env m₁ hev.sound (hev.contains henv)).bind fun w m₂ hev' _ =>
      .index hev'.sound w token.line fun e he => hev'.contains (hheld e he)

omit heval in
lemma outcomeHolds_of_finished {r : Except Interrupt (Option Value)} {e : Env}
    (he : OutcomeHolds HeldIn (finished r) e) : OutcomeHolds HeldIn r e := by
  rcases r with (v | fault | _) | v
  · obtain ⟨w, hw, he⟩ := he
    obtain rfl := Option.some.inj hw
    exact he
  · exact he
  · exact he
  · exact he

/-- The statements of a program are safe; a return is then a result. -/
lemma Safe.programStatements (hs : m.heap.Sound) (henv : m.heap.contains env) (ss : List Stmt)
    {result : Option Value} (hheld : ∀ e, HeldIn result e → m.heap.contains e) :
    Safe policy env HeldIn (programStatements eval env result ss) m := by
  obtain ⟨hev, hend⟩ := Safe.statements heval hs henv ss hheld
  rw [Safe, outcome_programStatements]
  exact ⟨hev, fun e he => hend e (outcomeHolds_of_finished he)⟩

end Constructs

/-- Expressions are safe to evaluate, to whatever depth. -/
lemma safeEvaluator_expression (policy : ReleasePolicy) (depth : Nat) :
    SafeEvaluator policy (expression policy depth) := by
  induction depth with
  | zero => exact fun e env m hs _ => ⟨.refl hs, fun _ he => he.elim⟩
  | succ depth ih => exact fun e env m hs henv => .construct ih e hs henv

/-- Programs are safe to evaluate. -/
lemma Safe.program (hs : m.heap.Sound) (henv : m.heap.contains env) (depth : Nat) (p : Program) :
    Safe policy env HeldIn (program policy depth p env) m :=
  .programStatements (safeEvaluator_expression policy depth) hs henv p.statements
    fun _ ⟨_, hv, _⟩ => nomatch hv

end Eval

end Bhasha
