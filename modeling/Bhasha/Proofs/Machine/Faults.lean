import Bhasha.Proofs.Machine.Bindings
import Bhasha.Proofs.Machine.Relabelling
import Bhasha.Proofs.Tree.Parts

/-!
Where faults come from.

A fault names a line and a cause, and both point at an expression of the program: it stands on the
line, and it is of a form that can fail in this way. Many faults show up far from the text that is
being evaluated, in the body of a function that was bound long ago or that an array has handed on.
So the proof follows function literals. Whatever a run holds, in frames and in results, carries only
closures whose bodies are parts of the program, and an evaluation of parts of the program leaves
it that way.

The main result is `exists_part_of_run_failed`.
-/

namespace Bhasha

/-! ## Forms of expressions and causes of faults -/

/-- An expression of this form can fail with the cause. -/
inductive Expr.CanFail : Expr → Cause → Prop
  | unknownIdentifier {id : Identifier} :
      (∀ b : Builtin, b.name ≠ id.name) → CanFail (.ident id) (.unknownIdentifier id.name)
  | typeMismatch {token : Token} {op : BinaryOp} {left right : Expr} {l r : Ty} :
      CanFail (.binary token op left right) (.typeMismatch l op r)
  | unknownBinary {token : Token} {op : BinaryOp} {left right : Expr} {l r : Ty} :
      CanFail (.binary token op left right) (.unknownBinary l op r)
  | unknownUnary {token : Token} {op : UnaryOp} {operand : Expr} {t : Ty} :
      CanFail (.unary token op operand) (.unknownUnary op t)
  | divisionByZero {token : Token} {left right : Expr} :
      CanFail (.binary token .div left right) .divisionByZero
  | overflow {token : Token} {op : BinaryOp} {left right : Expr} :
      op ∈ [BinaryOp.add, .sub, .mul, .div] → CanFail (.binary token op left right) .overflow
  | overflowNegation {token : Token} {operand : Expr} :
      CanFail (.unary token .neg operand) .overflow
  | overflowCall {token : Token} {callee : Expr} {args : List Expr} :
      CanFail (.call token callee args) .overflow
  | notAFunction {token : Token} {callee : Expr} {args : List Expr} {t : Ty} :
      CanFail (.call token callee args) (.notAFunction t)
  | argumentCount {token : Token} {callee : Expr} {args : List Expr} {expected found : Nat} :
      CanFail (.call token callee args) (.argumentCount expected found)
  | unsupportedArgument {token : Token} {callee : Expr} {args : List Expr} {b : Builtin} {t : Ty} :
      CanFail (.call token callee args) (.unsupportedArgument b t)
  | indexNotSupported {token : Token} {base index : Expr} {t u : Ty} :
      CanFail (.index token base index) (.indexNotSupported t u)

/-- One of the expressions stands on the line of the fault and can fail in this way. -/
def Fault.RaisedBy (es : List Expr) (fault : Fault) : Prop :=
  ∃ e ∈ es, e.token.line = fault.line ∧ e.CanFail fault.cause

section Forms

variable {token : Token}

lemma Builtin.name_ne_of_ofName?_eq_none {name : String} (h : Builtin.ofName? name = none)
    (b : Builtin) : b.name ≠ name := by
  have hmem : b ∈ Builtin.all := by cases b <;> decide
  simpa using List.find?_eq_none.1 h b hmem

/-- A number that is not found does not fit. -/
lemma eq_overflow_of_eq_error {n? : Option Int64} {cause : Cause}
    (h : (match n? with
      | some n => .ok (.int n)
      | none => .error .overflow : Except Cause Value) = .error cause) : cause = .overflow := by
  cases n? with
  | none => exact (Except.error.inj h).symm
  | some n => cases h

lemma BinaryOp.canFail_onIntegers {op : BinaryOp} {a b : Int64} {cause : Cause}
    (h : op.onIntegers a b = .error cause) (left right : Expr) :
    (Expr.binary token op left right).CanFail cause := by
  cases op with
  | add | sub | mul =>
    obtain rfl := eq_overflow_of_eq_error h
    exact .overflow (by decide)
  | div =>
    simp only [BinaryOp.onIntegers] at h
    split at h
    · obtain rfl := Except.error.inj h
      exact .divisionByZero
    · obtain rfl := eq_overflow_of_eq_error h
      exact .overflow (by decide)
  | lt | gt | eq | ne => cases h

lemma BinaryOp.canFail_onStrings {op : BinaryOp} {s t : String} {cause : Cause}
    (h : op.onStrings s t = .error cause) (left right : Expr) :
    (Expr.binary token op left right).CanFail cause := by
  cases op with
  | add => cases h
  | _ =>
    obtain rfl := Except.error.inj h
    exact .unknownBinary

lemma BinaryOp.canFail_onIdentity {op : BinaryOp} {v w : Value} {cause : Cause}
    (h : op.onIdentity v w = .error cause) (left right : Expr) :
    (Expr.binary token op left right).CanFail cause := by
  cases op with
  | eq | ne => cases h
  | _ =>
    obtain rfl := Except.error.inj h
    exact .unknownBinary

lemma UnaryOp.canFail_onValue {op : UnaryOp} {v : Value} {cause : Cause}
    (h : op.onValue v = .error cause) (operand : Expr) :
    (Expr.unary token op operand).CanFail cause := by
  unfold UnaryOp.onValue at h
  split at h
  · cases h
  · split at h
    · cases h
    · obtain rfl := Except.error.inj h
      exact .overflowNegation
  · obtain rfl := Except.error.inj h
    exact .unknownUnary

lemma Value.canFail_elementAt {v w : Value} {cause : Cause} (h : v.elementAt w = .error cause)
    (base index : Expr) : (Expr.index token base index).CanFail cause := by
  unfold Value.elementAt at h
  split at h
  · split at h <;> cases h
  · obtain rfl := Except.error.inj h
    exact .indexNotSupported

lemma Builtin.canFail_elements {b : Builtin} {values : List Value} {cause : Cause}
    (h : b.elements values = .error cause) (callee : Expr) (args : List Expr) :
    (Expr.call token callee args).CanFail cause := by
  by_cases hlen : values.length = 1
  · obtain ⟨v, rfl⟩ := List.length_eq_one_iff.1 hlen
    cases v with
    | array id xs => cases h
    | _ =>
      obtain rfl := Except.error.inj h
      exact .unsupportedArgument
  · rw [elements_of_ne b hlen] at h
    obtain rfl := Except.error.inj h
    exact .argumentCount

lemma Builtin.canFail_extended {b : Builtin} {values : List Value} {cause : Cause}
    (h : b.extended values = .error cause) (callee : Expr) (args : List Expr) :
    (Expr.call token callee args).CanFail cause := by
  by_cases hlen : values.length = 2
  · obtain ⟨v, w, rfl⟩ := List.length_eq_two.1 hlen
    cases v with
    | array id xs => cases h
    | _ =>
      obtain rfl := Except.error.inj h
      exact .unsupportedArgument
  · rw [extended_of_ne b hlen] at h
    obtain rfl := Except.error.inj h
    exact .argumentCount

lemma Builtin.canFail_length {values : List Value} {cause : Cause}
    (h : Builtin.length values = .error cause) (callee : Expr) (args : List Expr) :
    (Expr.call token callee args).CanFail cause := by
  by_cases hlen : values.length = 1
  · obtain ⟨v, rfl⟩ := List.length_eq_one_iff.1 hlen
    cases v with
    | str id text =>
      obtain rfl := eq_overflow_of_eq_error h
      exact .overflowCall
    | array id xs =>
      obtain rfl := eq_overflow_of_eq_error h
      exact .overflowCall
    | _ =>
      obtain rfl := Except.error.inj h
      exact .unsupportedArgument
  · rw [length_of_ne hlen] at h
    obtain rfl := Except.error.inj h
    exact .argumentCount

end Forms

/-! ## Closures of a program -/

/-- The bodies of the closures that a result carries are made of the expressions. -/
def Eval.MadeOf {α : Type} [Relabellable α] (es : List Expr) (a : α) : Prop :=
  Relabellable.CarriesOnly (fun lambda _ => lambda.body.parts ⊆ es) a

/-- The bodies of the closures that the frames bind are made of the expressions. -/
abbrev Machine.MadeOf (es : List Expr) (m : Machine) : Prop :=
  m.BindsOnly (Eval.MadeOf es)

/-! ## Evaluations account for their faults -/

lemma Answer.ofOutcome_eq_failed {r : Except Interrupt (Option Value)} {fault : Fault} :
    Answer.ofOutcome r = .failed fault ↔ r = .error (.failed fault) := by
  rcases r with (_ | _ | _) | _ <;> simp [Answer.ofOutcome]

namespace Eval

variable {α β : Type} [Relabellable α] [Relabellable β] {es : List Expr}

lemma callResult_eq_failed {r : Except Interrupt (Option Value)} {fault : Fault} :
    callResult r = .error (.failed fault) ↔ r = .error (.failed fault) := by
  rcases r with (_ | _ | _) | _ <;> simp [callResult]

lemma finished_eq_failed {r : Except Interrupt (Option Value)} {fault : Fault} :
    finished r = .error (.failed fault) ↔ r = .error (.failed fault) := by
  rcases r with (_ | _ | _) | _ <;> simp [finished]

/-- An evaluation accounts for its faults with a list of expressions: on a machine made of them it
leaves such a machine and ends with a result made of them, and if it fails, one of them is why. -/
def Accounts (es : List Expr) (x : Eval α) : Prop :=
  ∀ m, m.MadeOf es → (x.outcome m).2.MadeOf es ∧ MadeOf es (x.outcome m).1 ∧
    ∀ fault, (x.outcome m).1 = .error (.failed fault) → fault.RaisedBy es

lemma Accounts.pure {a : α} (ha : MadeOf es a) : Accounts es (pure a : Eval α) :=
  fun _ hm => ⟨hm, ha, fun _ h => nomatch h⟩

lemma Accounts.fail {cause : Cause} {line : Nat} (h : Fault.RaisedBy es ⟨cause, line⟩) :
    Accounts es (fail cause line : Eval α) := by
  refine fun m hm => ⟨hm, fun _ _ hcarries => hcarries.elim, fun fault hfault => ?_⟩
  obtain rfl := Interrupt.failed.inj (Except.error.inj hfault)
  exact h

lemma Accounts.returned {v : Value} (hv : MadeOf es v) :
    Accounts es (throw (.returned v) : Eval α) :=
  fun _ hm => ⟨hm, hv, fun _ h => nomatch h⟩

lemma Accounts.bind {x : Eval α} {f : α → Eval β} (hx : Accounts es x)
    (hf : ∀ a, MadeOf es a → Accounts es (f a)) : Accounts es (x >>= f) := by
  intro m hm
  have hend := hx m hm
  rcases hout : x.outcome m with ⟨i | a, m₁⟩
  · rw [hout] at hend
    obtain ⟨hm₁, hi, hfault⟩ := hend
    rw [outcome_bind_of_error hout]
    refine ⟨hm₁, hi, fun fault h => hfault fault ?_⟩
    obtain rfl := Except.error.inj h
    rfl
  · rw [hout] at hend
    rw [outcome_bind_of_ok hout]
    exact hf a hend.2.1 m₁ hend.1

lemma Accounts.check {line : Nat} {r : Except Cause α} (hok : ∀ a, r = .ok a → MadeOf es a)
    (herror : ∀ cause, r = .error cause → Fault.RaisedBy es ⟨cause, line⟩) :
    Accounts es (check line r) := by
  cases r with
  | error cause => exact .fail (herror cause rfl)
  | ok a => exact .pure (hok a rfl)

lemma Accounts.newString (text : String) : Accounts es (newString text) :=
  fun _ hm => ⟨hm.of_heap_eq rfl, fun _ _ hcarries => (nomatch hcarries), fun _ h => nomatch h⟩

lemma Accounts.newArray {vs : List Value} (hvs : MadeOf es vs) : Accounts es (newArray vs) :=
  fun m hm => ⟨hm.of_heap_eq rfl, hvs.array m.nextObject, fun _ h => nomatch h⟩

lemma Accounts.newClosure {lambda : Lambda} (hbody : lambda.body.parts ⊆ es) (env : Env) :
    Accounts es (newClosure lambda env) := by
  refine fun m hm => ⟨hm.of_heap_eq rfl, fun lambda' e hcarries => ?_, fun _ h => nomatch h⟩
  cases hcarries with
  | closure => exact hbody

lemma Accounts.define (env : Env) (name : String) {v : Value} (hv : MadeOf es v) :
    Accounts es (define env name v) :=
  fun _ hm => ⟨hm.define env name hv, fun _ _ hcarries => hcarries.elim, fun _ h => nomatch h⟩

lemma Accounts.lookup (env : Env) {id : Identifier} (hid : .ident id ∈ es) :
    Accounts es (lookup env id) := by
  intro m hm
  rw [outcome_lookup]
  refine ⟨hm, ?_⟩
  rcases hv : m.heap.get? env id.name with _ | v
  · rcases hb : Builtin.ofName? id.name with _ | b
    · refine ⟨fun _ _ hcarries => hcarries.elim, fun fault hfault => ?_⟩
      obtain rfl := Interrupt.failed.inj (Except.error.inj hfault)
      exact ⟨_, hid, rfl, .unknownIdentifier (Builtin.name_ne_of_ofName?_eq_none hb)⟩
    · exact ⟨fun _ _ hcarries => (nomatch hcarries), fun _ h => nomatch h⟩
  · exact ⟨hm.get? hv, fun _ h => nomatch h⟩

/-! ### Operators and builtins -/

lemma Accounts.unary {token : Token} {op : UnaryOp} {operand : Expr}
    (he : .unary token op operand ∈ es) (v : Value) : Accounts es (unary op v token.line) :=
  .check (fun _ h => Relabellable.carriesOnly_of_not_holds (plain_onValue h).not_holds)
    fun _ h => ⟨_, he, rfl, UnaryOp.canFail_onValue h operand⟩

lemma Accounts.binary {token : Token} {op : BinaryOp} {left right : Expr}
    (he : .binary token op left right ∈ es) (v w : Value) :
    Accounts es (binary op v w token.line) := by
  rw [Eval.binary.eq_def]
  split
  · exact .check (fun _ h => Relabellable.carriesOnly_of_not_holds (plain_onIntegers h).not_holds)
      fun _ h => ⟨_, he, rfl, BinaryOp.canFail_onIntegers h left right⟩
  · refine Accounts.bind ?_ fun text _ => .newString text
    exact .check (fun _ _ _ _ hcarries => hcarries.elim)
      fun _ h => ⟨_, he, rfl, BinaryOp.canFail_onStrings h left right⟩
  · split
    · exact .check (fun _ h => Relabellable.carriesOnly_of_not_holds (plain_onIdentity h).not_holds)
        fun _ h => ⟨_, he, rfl, BinaryOp.canFail_onIdentity h left right⟩
    · exact .fail ⟨_, he, rfl, .typeMismatch⟩

lemma Accounts.index {token : Token} {base index : Expr} (he : .index token base index ∈ es)
    {v : Value} (hv : MadeOf es v) (w : Value) : Accounts es (Eval.index v w token.line) :=
  .check (fun _ h => hv.elementAt h) fun _ h => ⟨_, he, rfl, Value.canFail_elementAt h base index⟩

lemma Accounts.printAll (vs : List Value) : Accounts es (vs.forM print) := by
  have hunit : ∀ u : Unit, MadeOf es u := fun _ _ _ hcarries => hcarries.elim
  induction vs with
  | nil => exact .pure (hunit ())
  | cons v vs ih =>
    have hprint : Accounts es (print v) := fun m hm =>
      ⟨hm.of_heap_eq rfl, hunit (), fun _ h => nomatch h⟩
    exact hprint.bind fun _ _ => ih

section Builtins

variable {token : Token} {callee : Expr} {args : List Expr} (he : .call token callee args ∈ es)
include he

lemma Accounts.builtinBody (b : Builtin) {vs : List Value} (hvs : MadeOf es vs) :
    Accounts es (b.body vs token.line) := by
  have hnull : MadeOf es Value.null := fun _ _ hcarries => nomatch hcarries
  have helements : Accounts es (Eval.check token.line (b.elements vs)) :=
    .check (fun _ h => hvs.elements h) fun _ h => ⟨_, he, rfl, Builtin.canFail_elements h _ _⟩
  have hextended : Accounts es (Eval.check token.line (b.extended vs)) :=
    .check (fun _ h => hvs.extended h) fun _ h => ⟨_, he, rfl, Builtin.canFail_extended h _ _⟩
  -- an element that may be missing is an element or null
  have hpick : ∀ pick : List Value → Option Value, (∀ xs v, pick xs = some v → v ∈ xs) →
      Accounts es
        (do return (pick (← Eval.check token.line (b.elements vs))).getD .null : Eval Value) := by
    intro pick hmem
    refine helements.bind fun xs hxs => .pure (Relabellable.CarriesOnly.getD ?_)
    rintro lambda e ⟨v, hv, hcarries⟩
    exact hxs lambda e ⟨v, hmem xs v hv, hcarries⟩
  cases b with
  | len =>
    refine .check (fun v h => ?_) fun _ h => ⟨_, he, rfl, Builtin.canFail_length h _ _⟩
    obtain ⟨n, rfl⟩ := Builtin.eq_of_length_eq_ok h
    exact fun _ _ hcarries => nomatch hcarries
  | first | head => exact hpick List.head? fun _ _ => List.mem_of_head?
  | last => exact hpick List.getLast? fun _ _ => List.mem_of_getLast?
  | rest | tail =>
    refine helements.bind fun xs hxs => ?_
    cases xs with
    | nil => exact .pure hnull
    | cons v others =>
      refine .newArray ?_
      rintro lambda e ⟨w, hw, hcarries⟩
      exact hxs lambda e ⟨w, List.mem_cons_of_mem v hw, hcarries⟩
  | push | append => exact hextended.bind fun xs hxs => .newArray hxs
  | print | puts => exact (Accounts.printAll vs).bind fun _ _ => .pure hnull

lemma Accounts.builtinCall (b : Builtin) {vs : List Value} (hvs : MadeOf es vs) :
    Accounts es (b.call vs token.line) := by
  rw [Builtin.call]
  split
  · exact .builtinBody he b hvs
  · exact .fail ⟨_, he, rfl, .argumentCount⟩

end Builtins

/-! ### Constructs -/

/-- An evaluator of expressions that accounts for the faults of those made of the given ones. -/
def Accounting (es : List Expr) (eval : Expr → Env → Eval Value) : Prop :=
  ∀ e env, e :: e.parts ⊆ es → Accounts es (eval e env)

section Constructs

variable {eval : Expr → Env → Eval Value} (heval : Accounting es eval)
include heval

lemma Accounts.statement {s : Stmt} (hs : s.parts ⊆ es) (env : Env) :
    Accounts es (statement eval s env) := by
  rw [Stmt.parts_eq] at hs
  cases s with
  | bind token id value =>
    refine (heval value env hs).bind fun v hv => ?_
    exact (Accounts.define env id.name hv).bind fun _ _ => .pure fun _ _ ⟨_, hv, _⟩ => nomatch hv
  | ret token value => exact (heval value env hs).bind fun v hv => .returned hv
  | expr token value => exact (heval value env hs).bind fun v hv => .pure hv.some

lemma Accounts.statements {ss : List Stmt} (hss : Stmt.partsAll ss ⊆ es) (env : Env)
    {result : Option Value} (hresult : MadeOf es result) :
    Accounts es (statements eval env result ss) := by
  induction ss generalizing result with
  | nil => exact .pure hresult
  | cons s rest ih =>
    obtain ⟨hs, hrest⟩ := List.append_subset.1 hss
    exact (Accounts.statement heval hs env).bind fun r hr => ih hrest hr

lemma Accounts.block {b : Block} (hb : b.parts ⊆ es) (env : Env) :
    Accounts es (block eval b env) := by
  rw [Block.parts_eq] at hb
  exact .statements heval hb env fun _ _ ⟨_, hv, _⟩ => nomatch hv

lemma Accounts.expressions {ds : List Expr} (hds : Expr.partsAll ds ⊆ es) (env : Env) :
    Accounts es (expressions eval env ds) := by
  induction ds with
  | nil => exact .pure fun _ _ ⟨_, hv, _⟩ => nomatch hv
  | cons d rest ih =>
    obtain ⟨hd, hrest⟩ := List.append_subset.1 hds
    refine (heval d env hd).bind fun v hv => ?_
    exact (ih hrest).bind fun vs hvs => .pure (hv.cons hvs)

lemma Accounts.branch {b? : Option Block} (hb : ∀ b ∈ b?, b.parts ⊆ es) (env : Env) :
    Accounts es (branch eval env b?) := by
  cases b? with
  | none => exact .pure fun _ _ hcarries => nomatch hcarries
  | some b => exact (Accounts.block heval (hb b rfl) env).bind fun v hv => .pure hv.getD

variable {policy : ReleasePolicy} {token : Token} {callee : Expr} {args : List Expr}
  (he : .call token callee args ∈ es)
include he

/-- The body of a closure accounts for its own faults, and the call for a wrong number of
arguments. -/
lemma Accounts.applyClosure {lambda : Lambda} (hbody : lambda.body.parts ⊆ es) (captured : Env)
    {vs : List Value} (hvs : MadeOf es vs) :
    Accounts es (applyClosure policy eval lambda captured vs token.line) := by
  by_cases hlen : lambda.params.length = vs.length
  · intro m hm
    have hpairs : ∀ p ∈ lambda.params.zip vs, MadeOf es p.2 := fun p hp l e hcarries =>
      hvs l e ⟨p.2, (List.of_mem_zip hp).2, hcarries⟩
    obtain ⟨hm₂, hr, hfault⟩ := Accounts.block heval hbody (entered captured m).1 _
      ((hm.entered captured).bound (entered captured m).1 hpairs)
    rw [outcome_applyClosure policy eval hlen captured token.line m (outcome_enter _ _ _ _) rfl]
    refine ⟨hm₂.released policy _ _, hr.callResult, fun fault h => hfault fault ?_⟩
    exact callResult_eq_failed.1 h
  · rw [Eval.applyClosure, if_neg hlen]
    exact .fail ⟨_, he, rfl, .argumentCount⟩

lemma Accounts.apply {v : Value} (hv : MadeOf es v) {vs : List Value} (hvs : MadeOf es vs) :
    Accounts es (apply policy eval v vs token.line) := by
  cases v with
  | closure id lambda captured =>
    exact .applyClosure heval he (hv lambda captured .closure) captured hvs
  | builtin b => exact .builtinCall he b hvs
  | int _ | bool _ | str _ _ | array _ _ | null => exact .fail ⟨_, he, rfl, .notAFunction⟩

omit he

/-- A construct accounts for its faults if its parts do. -/
lemma Accounts.construct (e : Expr) (env : Env) (hsub : e :: e.parts ⊆ es) :
    Accounts es (construct policy eval e env) := by
  obtain ⟨he, hparts⟩ := List.cons_subset.1 hsub
  cases e with
  | ident id => exact .lookup env he
  | int token value => exact .pure fun _ _ hcarries => nomatch hcarries
  | str token value => exact .newString value
  | bool token value => exact .pure fun _ _ hcarries => nomatch hcarries
  | unary token op operand =>
    exact (heval operand env hparts).bind fun v _ => .unary he v
  | binary token op left right =>
    obtain ⟨hleft, hright⟩ := List.append_subset.1 hparts
    refine (heval left env hleft).bind fun v _ => ?_
    exact (heval right env hright).bind fun w _ => .binary he v w
  | cond token condition consequence alternative =>
    obtain ⟨hcondition, hconsequence, halternative⟩ := Expr.forall_parts_cond.1 hparts
    refine (heval condition env hcondition).bind fun v _ => .branch heval (fun b hb => ?_) env
    split at hb
    · obtain rfl := Option.some.inj hb
      exact hconsequence
    · exact halternative b hb
  | function token params body => exact .newClosure hparts env
  | call token callee args =>
    obtain ⟨hcallee, hargs⟩ := List.append_subset.1 hparts
    refine (heval callee env hcallee).bind fun v hv => ?_
    exact (Accounts.expressions heval hargs env).bind fun vs hvs => .apply heval he hv hvs
  | array token elements =>
    exact (Accounts.expressions heval hparts env).bind fun vs hvs => .newArray hvs
  | index token base index =>
    obtain ⟨hbase, hindex⟩ := List.append_subset.1 hparts
    refine (heval base env hbase).bind fun v hv => ?_
    exact (heval index env hindex).bind fun w _ => .index he hv w

end Constructs

/-- Expressions account for their faults, to whatever depth they are evaluated. -/
lemma accounting_expression (es : List Expr) (policy : ReleasePolicy) (depth : Nat) :
    Accounting es (expression policy depth) := by
  induction depth with
  | zero =>
    exact fun e env _ m hm => ⟨hm, fun _ _ hcarries => hcarries.elim, fun _ h => nomatch h⟩
  | succ depth ih => exact fun e env hsub => .construct ih e env hsub

/-- A program that fails on a machine made of its expressions fails at one of them. -/
lemma raisedBy_of_program {policy : ReleasePolicy} {depth : Nat} {p : Program} {env : Env}
    {m : Machine} {fault : Fault} (hm : m.MadeOf p.parts)
    (h : ((program policy depth p env).outcome m).1 = .error (.failed fault)) :
    fault.RaisedBy p.parts := by
  have hnone : MadeOf p.parts (none : Option Value) := fun _ _ ⟨_, hv, _⟩ => nomatch hv
  obtain ⟨-, -, hfault⟩ := Accounts.statements (accounting_expression p.parts policy depth)
    (List.Subset.refl _) env hnone m hm
  rw [program, outcome_programStatements] at h
  exact hfault fault (finished_eq_failed.1 h)

end Eval

/-- If a text is run and fails, it is a program, and one of its expressions, at whatever depth,
stands on the line of the fault and is of a form that can fail in this way. -/
theorem exists_part_of_run_failed {text : String} {depth : Nat} {fault : Fault}
    (h : (run text depth).1 = .failed fault) :
    ∃ p, Program.parse text = .ok p ∧
      ∃ e ∈ p.parts, e.token.line = fault.line ∧ e.CanFail fault.cause := by
  have hanswer : (Machine.initial.answer text Env.global depth).1 = .failed fault := h
  rw [Machine.answer] at hanswer
  split at hanswer
  · next p hp =>
    rw [Machine.evaluate_eq] at hanswer
    exact ⟨p, hp, Eval.raisedBy_of_program (Machine.bindsOnly_initial _)
      (Answer.ofOutcome_eq_failed.1 hanswer)⟩
  · cases hanswer

/-- An array hands on a function that fails far from where it is called. -/
theorem exists_part_of_run_failed_of_element :
    (run "let fs = [fn(n) \x7b\n  return 10 / n\n\x7d];\nfs[0](0)" 9).1 =
        .failed ⟨.divisionByZero, 2⟩ ∧
      ∃ p, Program.parse "let fs = [fn(n) \x7b\n  return 10 / n\n\x7d];\nfs[0](0)" = .ok p ∧
        ∃ e ∈ p.parts, e.token.line = 2 ∧ e.CanFail .divisionByZero := by
  have hfailed : (run "let fs = [fn(n) \x7b\n  return 10 / n\n\x7d];\nfs[0](0)" 9).1 =
      .failed ⟨.divisionByZero, 2⟩ := rfl
  exact ⟨hfailed, exists_part_of_run_failed hfailed⟩

end Bhasha
