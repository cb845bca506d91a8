import Bhasha.Proofs.Machine.Outcome
import Bhasha.Proofs.Tree.Parts

/-!
Returns do not leave their function.

A return interrupts every construct between it and the call around it: operands, arguments, array
elements, conditions and blocks all hand it on. So whether one comes out of an evaluation can only
depend on calls and on the text. A call hands on no return, whatever its callee is and whatever its
body does; that needs no knowledge of the closures that a machine holds. What is left are return
statements in the text itself, and the body of a function literal is not evaluated where it stands.

The main result is `Eval.returns_stay_within_function`.
-/

namespace Bhasha

/-- Whether a statement is a return. -/
def Stmt.isReturn : Stmt → Bool
  | .ret _ _ => true
  | .bind _ _ _ | .expr _ _ => false

/-- None of the statements is a return. -/
def ReturnFree (ss : List Stmt) : Prop :=
  ∀ s ∈ ss, s.isReturn = false

instance (ss : List Stmt) : Decidable (ReturnFree ss) :=
  inferInstanceAs (Decidable (∀ s ∈ ss, s.isReturn = false))

@[simp] lemma returnFree_append {ss ts : List Stmt} :
    ReturnFree (ss ++ ts) ↔ ReturnFree ss ∧ ReturnFree ts :=
  List.forall_mem_append

/-- A conditional without returns has none in its condition and none in the branch taken. -/
lemma Expr.returnFree_cond {token : Token} {c : Expr} {b : Block} {b? : Option Block}
    (h : ReturnFree (Expr.cond token c b b?).ownStatements) :
    ReturnFree c.ownStatements ∧ ReturnFree b.ownStatements ∧
      ∀ b' ∈ b?, ReturnFree b'.ownStatements := by
  cases b? <;> simpa [Expr.ownStatements] using h

namespace Eval

variable {α β : Type}

/-- An evaluation that no return comes out of, on whatever machine. -/
def NeverReturns (x : Eval α) : Prop :=
  ∀ m v, (x.outcome m).1 ≠ .error (.returned v)

lemma NeverReturns.bind {x : Eval α} {f : α → Eval β} (hx : NeverReturns x)
    (hf : ∀ a, NeverReturns (f a)) : NeverReturns (x >>= f) := by
  intro m v
  have hend := hx m v
  rcases hout : x.outcome m with ⟨i | a, m₁⟩
  · rw [hout] at hend
    rw [outcome_bind_of_error hout]
    intro h
    exact hend (by rw [Except.error.inj h])
  · rw [outcome_bind_of_ok hout]
    exact hf a m₁ v

lemma Elementary.neverReturns {x : Eval α} (h : Elementary x) : NeverReturns x := by
  induction h with
  | pure a => exact fun _ _ h => nomatch h
  | fail cause line => exact fun _ _ h => nomatch h
  | newObject => exact fun _ _ h => nomatch h
  | print v => exact fun _ _ h => nomatch h
  | lookup env id =>
    intro m v
    rw [outcome_lookup]
    split
    · exact fun h => nomatch h
    · split <;> exact fun h => nomatch h
  | bind _ _ ihx ihf => exact ihx.bind ihf

lemma neverReturns_define (env : Env) (name : String) (v : Value) :
    NeverReturns (define env name v) :=
  fun _ _ h => nomatch h

/-! ## Calls -/

/-- However a body ends, its call does not end with a return. -/
lemma callResult_ne_returned (r : Except Interrupt (Option Value)) (v : Value) :
    callResult r ≠ .error (.returned v) := by
  rcases r with (_ | _ | _) | _ <;> exact fun h => nomatch h

section Calls

variable (policy : ReleasePolicy) (eval : Expr → Env → Eval Value)

lemma NeverReturns.applyClosure (lambda : Lambda) (captured : Env) (args : List Value)
    (line : Nat) : NeverReturns (applyClosure policy eval lambda captured args line) := by
  by_cases hlen : lambda.params.length = args.length
  · intro m v
    rw [outcome_applyClosure policy eval hlen captured line m (outcome_enter _ _ _ _) rfl]
    exact callResult_ne_returned _ v
  · rw [Eval.applyClosure, if_neg hlen]
    exact (Elementary.fail _ line).neverReturns

/-- No return comes out of a call, whatever the evaluator of expressions does. -/
lemma NeverReturns.apply (callee : Value) (args : List Value) (line : Nat) :
    NeverReturns (apply policy eval callee args line) := by
  cases callee with
  | closure id lambda captured => exact .applyClosure policy eval lambda captured args line
  | builtin b => exact (Elementary.builtinCall b args line).neverReturns
  | int _ | bool _ | str _ _ | array _ _ | null => exact (Elementary.fail _ line).neverReturns

end Calls

/-! ## Text without returns -/

/-- An evaluator of expressions that hands on no returns but those in the text. -/
def HandsOnOwn (eval : Expr → Env → Eval Value) : Prop :=
  ∀ e env, ReturnFree e.ownStatements → NeverReturns (eval e env)

section Constructs

variable {policy : ReleasePolicy} {eval : Expr → Env → Eval Value} (heval : HandsOnOwn eval)
include heval

lemma NeverReturns.statement {s : Stmt} (hs : ReturnFree s.ownStatements) (env : Env) :
    NeverReturns (statement eval s env) := by
  cases s with
  | bind token id value =>
    rw [Stmt.ownStatements] at hs
    refine (heval value env (List.forall_mem_cons.1 hs).2).bind fun v => ?_
    exact (neverReturns_define env id.name v).bind fun _ => (Elementary.pure _).neverReturns
  | ret token value =>
    rw [Stmt.ownStatements] at hs
    exact absurd (List.forall_mem_cons.1 hs).1 (by simp [Stmt.isReturn])
  | expr token value =>
    rw [Stmt.ownStatements] at hs
    refine (heval value env (List.forall_mem_cons.1 hs).2).bind fun v => ?_
    exact (Elementary.pure _).neverReturns

lemma NeverReturns.statements {ss : List Stmt} (hss : ReturnFree (Stmt.ownStatementsAll ss))
    (env : Env) (result : Option Value) : NeverReturns (statements eval env result ss) := by
  induction ss generalizing result with
  | nil => exact (Elementary.pure result).neverReturns
  | cons s rest ih =>
    rw [Stmt.ownStatementsAll, returnFree_append] at hss
    exact (NeverReturns.statement heval hss.1 env).bind fun r => ih hss.2 r

lemma NeverReturns.block {b : Block} (hb : ReturnFree b.ownStatements) (env : Env) :
    NeverReturns (block eval b env) := by
  rw [Block.ownStatements_eq] at hb
  exact .statements heval hb env none

lemma NeverReturns.expressions {es : List Expr} (hes : ReturnFree (Expr.ownStatementsAll es))
    (env : Env) : NeverReturns (expressions eval env es) := by
  induction es with
  | nil => exact (Elementary.pure []).neverReturns
  | cons e rest ih =>
    rw [Expr.ownStatementsAll, returnFree_append] at hes
    refine (heval e env hes.1).bind fun v => (ih hes.2).bind fun vs => ?_
    exact (Elementary.pure _).neverReturns

lemma NeverReturns.branch {b? : Option Block} (hb : ∀ b ∈ b?, ReturnFree b.ownStatements)
    (env : Env) : NeverReturns (branch eval env b?) := by
  cases b? with
  | none => exact (Elementary.pure _).neverReturns
  | some b =>
    refine (NeverReturns.block heval (hb b rfl) env).bind fun v => ?_
    exact (Elementary.pure _).neverReturns

/-- A construct hands on no returns but those in the text, if its parts do. -/
lemma NeverReturns.construct {e : Expr} (he : ReturnFree e.ownStatements) (env : Env) :
    NeverReturns (construct policy eval e env) := by
  cases e with
  | ident id => exact (Elementary.lookup env id).neverReturns
  | int token value => exact (Elementary.pure _).neverReturns
  | str token value => exact (Elementary.newString value).neverReturns
  | bool token value => exact (Elementary.pure _).neverReturns
  | unary token op operand =>
    exact (heval operand env he).bind fun v => (Elementary.check token.line _).neverReturns
  | binary token op left right =>
    rw [Expr.ownStatements, returnFree_append] at he
    refine (heval left env he.1).bind fun v => (heval right env he.2).bind fun w => ?_
    exact (Elementary.binary op v w token.line).neverReturns
  | cond token condition consequence alternative =>
    obtain ⟨hcondition, hconsequence, halternative⟩ := Expr.returnFree_cond he
    refine (heval condition env hcondition).bind fun v => .branch heval (fun b hb => ?_) env
    split at hb
    · obtain rfl := Option.some.inj hb
      exact hconsequence
    · exact halternative b hb
  | function token params body =>
    exact (Elementary.newClosure ⟨token, params, body⟩ env).neverReturns
  | call token callee args =>
    rw [Expr.ownStatements, returnFree_append] at he
    refine (heval callee env he.1).bind fun v => ?_
    refine (NeverReturns.expressions heval he.2 env).bind fun vs => ?_
    exact .apply policy eval v vs token.line
  | array token elements =>
    refine (NeverReturns.expressions heval he env).bind fun vs => ?_
    exact (Elementary.newArray vs).neverReturns
  | index token base index =>
    rw [Expr.ownStatements, returnFree_append] at he
    refine (heval base env he.1).bind fun v => (heval index env he.2).bind fun w => ?_
    exact (Elementary.check token.line _).neverReturns

end Constructs

/-- Expressions hand on no returns but those in the text, to whatever depth they are evaluated. -/
lemma handsOnOwn_expression (policy : ReleasePolicy) (depth : Nat) :
    HandsOnOwn (expression policy depth) := by
  induction depth with
  | zero => exact fun e env _ m v h => nomatch h
  | succ depth ih => exact fun e env he => .construct ih he env

/-- Without a return there is nothing to take away at the outside. -/
lemma NeverReturns.outcome_finish {x : Eval (Option Value)} (hx : NeverReturns x) (m : Machine) :
    (finish x).outcome m = x.outcome m := by
  rw [Eval.outcome_finish]
  rcases hout : x.outcome m with ⟨(v | fault | _) | r, m₁⟩
  · exact absurd (by rw [hout]) (hx m v)
  · rfl
  · rfl
  · rfl

/-- Returns stay within their function. Take any machine, any environment, and an expression, a
statement or a block that has no return statement outside of function literals. However far it is
evaluated and whatever closures it calls, no return comes out of it, so it does the same if it is
evaluated by itself and seen from outside. And no return comes out of a call, of whatever value and
with whatever arguments. -/
theorem returns_stay_within_function (policy : ReleasePolicy) (depth : Nat) (m : Machine) :
    (∀ e env, ReturnFree e.ownStatements →
      (∀ v, ((expression policy depth e env).outcome m).1 ≠ .error (.returned v)) ∧
        (node policy depth (.expr e) env).outcome m =
          (some <$> expression policy depth e env).outcome m) ∧
    (∀ s env, ReturnFree s.ownStatements →
      (∀ v, ((statement (expression policy depth) s env).outcome m).1 ≠ .error (.returned v)) ∧
        (node policy depth (.stmt s) env).outcome m =
          (statement (expression policy depth) s env).outcome m) ∧
    (∀ b env, ReturnFree b.ownStatements →
      (∀ v, ((block (expression policy depth) b env).outcome m).1 ≠ .error (.returned v)) ∧
        (node policy depth (.block b) env).outcome m =
          (block (expression policy depth) b env).outcome m) ∧
    ∀ callee args line v,
      ((apply policy (expression policy depth) callee args line).outcome m).1 ≠
        .error (.returned v) := by
  have heval := handsOnOwn_expression policy depth
  refine ⟨fun e env he => ?_, fun s env hs => ?_, fun b env hb => ?_, fun callee args line =>
    NeverReturns.apply policy _ callee args line m⟩
  · have hsome : NeverReturns (some <$> expression policy depth e env) := by
      rw [map_eq_pure_bind]
      exact (heval e env he).bind fun v => (Elementary.pure _).neverReturns
    exact ⟨heval e env he m, hsome.outcome_finish m⟩
  · have hstatement := NeverReturns.statement heval hs env
    exact ⟨hstatement m, hstatement.outcome_finish m⟩
  · have hblock := NeverReturns.block heval hb env
    exact ⟨hblock m, hblock.outcome_finish m⟩

/-- A block without returns of its own calls a function that returns out of a conditional inside an
array. -/
theorem returns_stay_within_function_of_calls :
    ∃ (b : Block) (m : Machine), ReturnFree b.ownStatements ∧
      (∀ v, ((block (expression .eager 20) b Env.global).outcome Machine.initial).1 ≠
        .error (.returned v)) ∧
      (node .eager 20 (.block b) Env.global).outcome Machine.initial =
        (block (expression .eager 20) b Env.global).outcome Machine.initial ∧
      (node .eager 20 (.block b) Env.global).outcome Machine.initial =
        (.ok (some (.array 2 [.int 7, .int 9])), m) := by
  let b : Block := .mk default (Program.read
    "let f = fn(x) \x7b [1, if (x) \x7b return 7 \x7d]; return 9; 8 \x7d; [f(true), f(false)]"
    ).1.statements
  have hb : ReturnFree b.ownStatements := by decide +kernel
  obtain ⟨hnot, heq⟩ := (returns_stay_within_function .eager 20 Machine.initial).2.2.1 b
    Env.global hb
  exact ⟨b, _, hb, hnot, heq, rfl⟩

-- a return in the text itself does come out
example : ((block (expression .eager 1) (.mk default [.ret default (.int default 7)])
    Env.global).outcome Machine.initial).1 = .error (.returned (.int 7)) :=
  rfl

end Eval

end Bhasha
