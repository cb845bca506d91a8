import Bhasha.Proofs.Machine.Sessions

/-!
What happens in the course of an evaluation.

The evaluator says what comes out of an expression. This file says what happens on the way: which
expressions are evaluated, in which environment and on which machine, and which calls are made.
A construct first evaluates its operands from left to right. A conditional goes on with the
statements of a branch, and a call goes on with those of the body, in an environment of its own.

All machines on the way are sound, and so are the calls: what is called and what it is given hold
no dangling handle. So what holds of every call on a sound machine holds of every call that is
ever made in a session, however deep.
-/

namespace Bhasha

/-- The expressions that a construct evaluates before it does anything else, in order. -/
def Expr.operands : Expr → List Expr
  | .ident _ | .int _ _ | .str _ _ | .bool _ _ | .function _ _ _ => []
  | .unary _ _ operand => [operand]
  | .binary _ _ left right => [left, right]
  | .cond _ condition _ _ => [condition]
  | .call _ callee args => callee :: args
  | .array _ elements => elements
  | .index _ base place => [base, place]

namespace Eval

/-- An expression of a list, and the machine on which its turn comes: those before it have ended
with a value each. -/
inductive Turn (eval : Expr → Env → Eval Value) (env : Env) :
    List Expr → Machine → Expr → Machine → Prop
  | head {e : Expr} {es : List Expr} {m : Machine} : Turn eval env (e :: es) m e m
  | tail {d e : Expr} {es : List Expr} {m m₁ m' : Machine} {v : Value} :
      (eval d env).outcome m = (.ok v, m₁) → Turn eval env es m₁ e m' →
      Turn eval env (d :: es) m e m'

/-- The expression of a statement in a list, and the machine on which its turn comes: no statement
before it was interrupted. -/
inductive StatementTurn (eval : Expr → Env → Eval Value) (env : Env) :
    List Stmt → Machine → Expr → Machine → Prop
  | head {s : Stmt} {ss : List Stmt} {m : Machine} : StatementTurn eval env (s :: ss) m s.value m
  | tail {s : Stmt} {ss : List Stmt} {e : Expr} {m m₁ m' : Machine} {result : Option Value} :
      (statement eval s env).outcome m = (.ok result, m₁) → StatementTurn eval env ss m₁ e m' →
      StatementTurn eval env (s :: ss) m e m'

section Turns

variable {policy : ReleasePolicy} {eval : Expr → Env → Eval Value} {env : Env} {m m' : Machine}
  {e : Expr} (heval : SafeEvaluator policy eval)
include heval

lemma Turn.evolves {es : List Expr} (h : Turn eval env es m e m') (hs : m.heap.Sound)
    (henv : m.heap.contains env) : m.Evolves policy env m' := by
  induction h with
  | head => exact .refl hs
  | @tail d e es m m₁ m' v hd _ ih =>
    have hev := (heval d env m hs henv).1
    rw [hd] at hev
    exact hev.trans (ih hev.sound (hev.contains henv))

lemma StatementTurn.evolves {ss : List Stmt} (h : StatementTurn eval env ss m e m')
    (hs : m.heap.Sound) (henv : m.heap.contains env) : m.Evolves policy env m' := by
  induction h with
  | head => exact .refl hs
  | @tail s ss e m m₁ m' result hst _ ih =>
    have hev := (Safe.statement heval hs henv s).1
    rw [hst] at hev
    exact hev.trans (ih hev.sound (hev.contains henv))

end Turns

end Eval

open Eval (Turn StatementTurn)

/-! ## Visits -/

/-- An expression about to be evaluated. -/
structure Visit where
  /-- How deep it may nest. -/
  depth : Nat
  /-- The expression. -/
  expr : Expr
  /-- The environment it is evaluated in. -/
  env : Env
  /-- The machine it is evaluated on. -/
  machine : Machine

namespace Visit

/-- To evaluate the one expression is, among other things, to evaluate the other, and both in the
same environment. -/
inductive Leads : Visit → Visit → Prop
  /-- To an operand. -/
  | operand {depth : Nat} {e d : Expr} {env : Env} {m m' : Machine} :
      Turn (Eval.expression .eager depth) env e.operands m d m' →
      Leads ⟨depth + 1, e, env, m⟩ ⟨depth, d, env, m'⟩
  /-- To a statement of the branch that a condition has chosen. -/
  | branch {depth : Nat} {token : Token} {condition d : Expr} {consequence chosen : Block}
      {alternative : Option Block} {env : Env} {m m₁ m' : Machine} {v : Value} :
      (Eval.expression .eager depth condition env).outcome m = (.ok v, m₁) →
      (if v.truthy then some consequence else alternative) = some chosen →
      StatementTurn (Eval.expression .eager depth) env chosen.statements m₁ d m' →
      Leads ⟨depth + 1, .cond token condition consequence alternative, env, m⟩ ⟨depth, d, env, m'⟩

/-- A visit to a sound machine that has the environment. -/
structure Sound (v : Visit) : Prop where
  heap : v.machine.heap.Sound
  env : v.machine.heap.contains v.env

lemma Leads.sound {v v' : Visit} (h : v.Leads v') (hv : v.Sound) : v'.Sound := by
  cases h with
  | operand hturn =>
    have hev := hturn.evolves (Eval.safeEvaluator_expression .eager _) hv.heap hv.env
    exact ⟨hev.sound, hev.contains hv.env⟩
  | @branch depth _ condition d consequence chosen _ env m m₁ m' w hcondition _ hturn =>
    have hsafe := Eval.safeEvaluator_expression .eager depth
    have hev := (hsafe condition env m hv.heap hv.env).1
    rw [hcondition] at hev
    have henv : m₁.heap.contains env := hev.contains hv.env
    have hev' := hturn.evolves hsafe hev.sound henv
    exact ⟨hev'.sound, hev'.contains henv⟩

lemma sound_of_leads {v v' : Visit} (h : Relation.ReflTransGen Leads v v') (hv : v.Sound) :
    v'.Sound := by
  induction h with
  | refl => exact hv
  | tail _ hstep ih => exact hstep.sound ih

end Visit

/-! ## Calls -/

/-- A call about to be made: what is called has been evaluated, and so have its arguments. -/
structure Call where
  /-- How deep the body may nest. -/
  depth : Nat
  /-- The value that is called. -/
  callee : Value
  /-- The arguments in order. -/
  args : List Value
  /-- The line of the call. -/
  line : Nat
  /-- The machine it is made on. -/
  machine : Machine

namespace Call

/-- How the call ends, and the machine it leaves behind. All calls made in its course give their
frames back when they end; the policy says whether this one does. -/
def outcome (c : Call) (policy : ReleasePolicy) : Except Interrupt Value × Machine :=
  (Eval.apply policy (Eval.expression .eager c.depth) c.callee c.args c.line).outcome c.machine

/-- An expression that a call of a closure evaluates, in the environment of the call. -/
inductive Opens : Call → Visit → Prop
  | body {depth line : Nat} {id : ObjectId} {lambda : Lambda} {env scope : Env}
      {args : List Value} {e : Expr} {m m₁ m' : Machine} :
      lambda.params.length = args.length →
      (Eval.enter lambda.params args env).outcome m = (.ok scope, m₁) →
      StatementTurn (Eval.expression .eager depth) scope lambda.body.statements m₁ e m' →
      Opens ⟨depth, .closure id lambda env, args, line, m⟩ ⟨depth, e, scope, m'⟩

/-- A call on a sound machine that has the environments of all values in the call. -/
structure Sound (c : Call) : Prop where
  heap : c.machine.heap.Sound
  callee : ∀ e, c.callee.Holds e → c.machine.heap.contains e
  args : ∀ e, Eval.HeldIn c.args e → c.machine.heap.contains e

lemma Opens.sound {c : Call} {v : Visit} (h : c.Opens v) (hc : c.Sound) : v.Sound := by
  cases h with
  | @body depth line id lambda env scope args e m m₁ m' _ henter hturn =>
    have hin := Eval.enters_call hc.heap (hc.callee env .closure) lambda.params hc.args
    rw [Eval.outcome_enter, Prod.mk.injEq] at henter
    obtain ⟨hscope, rfl⟩ := henter
    obtain rfl := Except.ok.inj hscope
    have hev := hturn.evolves (Eval.safeEvaluator_expression .eager _) hin.sound hin.contains_scope
    exact ⟨hev.sound, hev.contains hin.contains_scope⟩

end Call

/-- A visit to a call makes that call when the callee and the arguments have been evaluated. -/
inductive Visit.Makes : Visit → Call → Prop
  | call {depth : Nat} {token : Token} {callee : Expr} {args : List Expr} {env : Env}
      {m m₁ m₂ : Machine} {v : Value} {vs : List Value} :
      (Eval.expression .eager depth callee env).outcome m = (.ok v, m₁) →
      (Eval.expressions (Eval.expression .eager depth) env args).outcome m₁ = (.ok vs, m₂) →
      Makes ⟨depth + 1, .call token callee args, env, m⟩ ⟨depth, v, vs, token.line, m₂⟩

lemma Visit.Makes.sound {v : Visit} {c : Call} (h : v.Makes c) (hv : v.Sound) : c.Sound := by
  cases h with
  | @call depth token callee args env m m₁ m₂ w ws hcallee hargs =>
    have hsafe := Eval.safeEvaluator_expression .eager depth
    obtain ⟨hev, hheld⟩ := hsafe callee env m hv.heap hv.env
    rw [hcallee] at hev hheld
    obtain ⟨hev', hheld'⟩ := Eval.Safe.expressions hsafe hev.sound (hev.contains hv.env) args
    rw [hargs] at hev' hheld'
    exact ⟨hev'.sound, fun e he => hev'.contains (hheld e he), hheld'⟩

/-- The calls that are made in sessions. -/
inductive Session.Makes : Call → Prop
  /-- A call in a program, outside of all bodies. -/
  | program {m m' : Machine} {p : Program} {depth : Nat} {e : Expr} {v : Visit} {c : Call} :
      Session m → StatementTurn (Eval.expression .eager depth) Env.global p.statements m e m' →
      Relation.ReflTransGen Visit.Leads ⟨depth, e, Env.global, m'⟩ v → v.Makes c → Makes c
  /-- A call from outside, of any value with any arguments that hold no dangling handle. -/
  | outside {m : Machine} {depth line : Nat} {callee : Value} {args : List Value} :
      Session m → (∀ e, callee.Holds e → m.heap.contains e) →
      (∀ e, Eval.HeldIn args e → m.heap.contains e) → Makes ⟨depth, callee, args, line, m⟩
  /-- A call in the body of what was called. -/
  | nested {c c' : Call} {v v' : Visit} :
      Makes c → c.Opens v → Relation.ReflTransGen Visit.Leads v v' → v'.Makes c' → Makes c'

/-- Every call that is made in a session is sound. -/
lemma Session.Makes.sound {c : Call} (h : Session.Makes c) : c.Sound := by
  induction h with
  | program hm hturn hleads hmakes =>
    have hrest := hm.atRest
    have hev := hturn.evolves (Eval.safeEvaluator_expression .eager _) hrest.sound
      hrest.contains_global
    exact hmakes.sound (Visit.sound_of_leads hleads ⟨hev.sound, hev.contains hrest.contains_global⟩)
  | outside hm hcallee hargs => exact ⟨hm.atRest.sound, hcallee, hargs⟩
  | nested _ hopens hleads hmakes ih =>
    exact hmakes.sound (Visit.sound_of_leads hleads (hopens.sound ih))

end Bhasha
