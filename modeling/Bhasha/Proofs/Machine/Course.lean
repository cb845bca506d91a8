import Bhasha.Proofs.Machine.Evolution
import Bhasha.Proofs.Tree.Parts

/-!
The course of an evaluation.

Whatever an evaluation in an environment does to a machine, it does by few means. It makes objects
and prints, and neither touches the frames. It binds names in its environment, and only names that a
binding outside of function literals gives it. And it makes calls: a call has a frame of its own,
runs its course there, and gives frames back at its end.

`Machine.Course` lists these means, with no condition on the machine. That every evaluation keeps to
them is proved once, construct by construct. What evaluations can do to frames then needs no look
at the evaluator: it follows by induction on the course, and all that it takes is a heap whose list
of free slots is right. In particular handles may be stale, the environment's own among them.
-/

namespace Bhasha

namespace Machine

/-- What can become of a machine in the course of an evaluation in an environment that binds names
of a list there. -/
inductive Course (policy : ReleasePolicy) : Env → List String → Machine → Machine → Prop
  /-- Neither the frames nor the calls in progress change. -/
  | quiet {env : Env} {names : List String} {m m' : Machine} :
      m'.heap = m.heap → m'.callFrames = m.callFrames → Course policy env names m m'
  /-- A name of the list is bound in the environment. -/
  | bind {env : Env} {names : List String} {m : Machine} {name : String} (value : Value) :
      name ∈ names → Course policy env names m { m with heap := m.heap.set env name value }
  /-- A call makes a frame, runs its course in it, and gives frames back. -/
  | call {env captured : Env} {names inner : List String} {m m' : Machine} (result : Value) :
      Course policy (Eval.entered captured m).1 inner (Eval.entered captured m).2 m' →
      Course policy env names m (Eval.released policy m.callFrames.size result m')
  /-- One course comes after another. -/
  | trans {env : Env} {names : List String} {m m₁ m₂ : Machine} :
      Course policy env names m m₁ → Course policy env names m₁ m₂ → Course policy env names m m₂

variable {policy : ReleasePolicy} {env : Env} {names : List String} {m m' m₂ : Machine}

lemma Course.refl (m : Machine) : Course policy env names m m :=
  .quiet rfl rfl

lemma Course.mono {names' : List String} (h : Course policy env names m m')
    (hsub : names ⊆ names') : Course policy env names' m m' := by
  induction h with
  | quiet hheap hcalls => exact .quiet hheap hcalls
  | bind value hname => exact .bind value (hsub hname)
  | call result hbody _ => exact .call result hbody
  | trans _ _ ih₁ ih₂ => exact (ih₁ hsub).trans (ih₂ hsub)

/-- Parameters are bound in the frame of the call. -/
lemma Course.bound (pairs : List (Identifier × Value)) (hnames : ∀ p ∈ pairs, p.1.name ∈ names)
    (m : Machine) : Course policy env names m (Eval.bound env pairs m) := by
  induction pairs generalizing m with
  | nil => exact .refl m
  | cons pair rest ih =>
    obtain ⟨hpair, hrest⟩ := List.forall_mem_cons.1 hnames
    exact Course.trans (.bind pair.2 hpair) (ih hrest _)

end Machine

/-! ## Every evaluation has such a course -/

namespace Eval

open Machine (Course)

variable {α β : Type} {policy : ReleasePolicy} {env : Env} {names : List String}

/-- An evaluation keeps to the course of evaluations in an environment, however it ends. -/
def Takes (policy : ReleasePolicy) (env : Env) (names : List String) (x : Eval α) : Prop :=
  ∀ m, Course policy env names m (x.outcome m).2

/-- An evaluation that touches neither frames nor calls. -/
def Quiet (x : Eval α) : Prop :=
  ∀ m, (x.outcome m).2.heap = m.heap ∧ (x.outcome m).2.callFrames = m.callFrames

lemma Quiet.bind {x : Eval α} {f : α → Eval β} (hx : Quiet x) (hf : ∀ a, Quiet (f a)) :
    Quiet (x >>= f) := by
  intro m
  obtain ⟨hheap, hcalls⟩ := hx m
  rcases hout : x.outcome m with ⟨i | a, m₁⟩
  · rw [outcome_bind_of_error hout]
    rw [hout] at hheap hcalls
    exact ⟨hheap, hcalls⟩
  · rw [outcome_bind_of_ok hout]
    rw [hout] at hheap hcalls
    exact ⟨(hf a m₁).1.trans hheap, (hf a m₁).2.trans hcalls⟩

lemma Elementary.quiet {x : Eval α} (h : Elementary x) : Quiet x := by
  induction h with
  | pure a => exact fun _ => ⟨rfl, rfl⟩
  | fail cause line => exact fun _ => ⟨rfl, rfl⟩
  | newObject => exact fun _ => ⟨rfl, rfl⟩
  | print v => exact fun _ => ⟨rfl, rfl⟩
  | lookup env id =>
    intro m
    rw [outcome_lookup]
    exact ⟨rfl, rfl⟩
  | bind _ _ ihx ihf => exact ihx.bind ihf

lemma Elementary.takes {x : Eval α} (h : Elementary x) : Takes policy env names x :=
  fun m => .quiet (h.quiet m).1 (h.quiet m).2

lemma Takes.bind {x : Eval α} {f : α → Eval β} (hx : Takes policy env names x)
    (hf : ∀ a, Takes policy env names (f a)) : Takes policy env names (x >>= f) := by
  intro m
  have hcourse := hx m
  rcases hout : x.outcome m with ⟨i | a, m₁⟩
  · rw [outcome_bind_of_error hout]
    rwa [hout] at hcourse
  · rw [outcome_bind_of_ok hout]
    rw [hout] at hcourse
    exact hcourse.trans (hf a m₁)

lemma Takes.mono {x : Eval α} {names' : List String} (hx : Takes policy env names x)
    (hsub : names ⊆ names') : Takes policy env names' x :=
  fun m => (hx m).mono hsub

/-- An evaluator of expressions whose evaluations keep to their course. -/
def TakesCourse (policy : ReleasePolicy) (eval : Expr → Env → Eval Value) : Prop :=
  ∀ e env, Takes policy env e.lets (eval e env)

section Constructs

variable {eval : Expr → Env → Eval Value} (heval : TakesCourse policy eval)
include heval

lemma Takes.statement (s : Stmt) (env : Env) :
    Takes policy env s.lets (statement eval s env) := by
  cases s with
  | bind token id value =>
    have hvalue := (heval value env).mono (List.subset_cons_self id.name _)
    have hdefine : ∀ v, Takes policy env (id.name :: value.lets) (define env id.name v) :=
      fun v m => .bind v (List.mem_cons_self ..)
    exact hvalue.bind fun v => (hdefine v).bind fun _ => (Elementary.pure _).takes
  | ret token value => exact (heval value env).bind fun v m => .refl m
  | expr token value => exact (heval value env).bind fun v => (Elementary.pure _).takes

lemma Takes.statements (ss : List Stmt) (env : Env) (result : Option Value) :
    Takes policy env (Stmt.boundNames (Stmt.ownStatementsAll ss))
      (statements eval env result ss) := by
  induction ss generalizing result with
  | nil => exact (Elementary.pure _).takes
  | cons s rest ih =>
    rw [Stmt.ownStatementsAll, Stmt.boundNames_append]
    exact ((Takes.statement heval s env).mono (List.subset_append_left _ _)).bind fun r =>
      (ih r).mono (List.subset_append_right _ _)

lemma Takes.block (b : Block) (env : Env) : Takes policy env b.lets (block eval b env) := by
  rw [Block.lets, Block.ownStatements_eq]
  exact .statements heval b.statements env none

lemma Takes.expressions (es : List Expr) (env : Env) :
    Takes policy env (Stmt.boundNames (Expr.ownStatementsAll es)) (expressions eval env es) := by
  induction es with
  | nil => exact (Elementary.pure _).takes
  | cons e rest ih =>
    rw [Expr.ownStatementsAll, Stmt.boundNames_append]
    exact ((heval e env).mono (List.subset_append_left _ _)).bind fun v =>
      (ih.mono (List.subset_append_right _ _)).bind fun vs => (Elementary.pure _).takes

/-- What is done in the frame of a call: the parameters are bound, and the body takes its course. -/
lemma exists_course_body (lambda : Lambda) (captured : Env) (args : List Value) (m : Machine) :
    ∃ inner, Course policy (entered captured m).1 inner (entered captured m).2
      ((block eval lambda.body (entered captured m).1).outcome
        (bound (entered captured m).1 (lambda.params.zip args) (entered captured m).2)).2 := by
  have hparams : ∀ p ∈ lambda.params.zip args,
      p.1.name ∈ lambda.params.map Identifier.name ++ lambda.body.lets := fun p hp =>
    List.mem_append_left _ (List.mem_map_of_mem (List.of_mem_zip hp).1)
  have hbound : Course policy (entered captured m).1 _ (entered captured m).2 _ :=
    .bound _ hparams _
  exact ⟨_, hbound.trans
    ((Takes.block heval lambda.body _).mono (List.subset_append_right _ _) _)⟩

/-- A call binds nothing in the environment around it. -/
lemma Takes.applyClosure (lambda : Lambda) (captured : Env) (args : List Value) (line : Nat) :
    Takes policy env names (applyClosure policy eval lambda captured args line) := by
  by_cases hlen : lambda.params.length = args.length
  · intro m
    rw [outcome_applyClosure policy eval hlen captured line m (outcome_enter _ _ _ _) rfl]
    obtain ⟨inner, hbody⟩ := exists_course_body heval lambda captured args m
    exact .call _ hbody
  · rw [Eval.applyClosure, if_neg hlen]
    exact (Elementary.fail _ line).takes

lemma Takes.apply (callee : Value) (args : List Value) (line : Nat) :
    Takes policy env names (apply policy eval callee args line) := by
  cases callee with
  | closure id lambda captured => exact .applyClosure heval lambda captured args line
  | builtin b => exact (Elementary.builtinCall b args line).takes
  | int _ | bool _ | str _ _ | array _ _ | null => exact (Elementary.fail _ line).takes

lemma Takes.branch (b? : Option Block) (env : Env) (hnames : ∀ b ∈ b?, b.lets ⊆ names) :
    Takes policy env names (branch eval env b?) := by
  cases b? with
  | none => exact (Elementary.pure _).takes
  | some b =>
    exact ((Takes.block heval b env).mono (hnames b rfl)).bind fun v => (Elementary.pure _).takes

/-- A construct keeps to its course if its parts do. -/
lemma Takes.construct (e : Expr) (env : Env) :
    Takes policy env e.lets (construct policy eval e env) := by
  cases e with
  | ident id => exact (Elementary.lookup env id).takes
  | int token value => exact (Elementary.pure _).takes
  | str token value => exact (Elementary.newString value).takes
  | bool token value => exact (Elementary.pure _).takes
  | unary token op operand =>
    exact (heval operand env).bind fun v => (Elementary.check token.line _).takes
  | binary token op left right =>
    rw [Expr.lets, Expr.ownStatements, Stmt.boundNames_append]
    refine ((heval left env).mono (List.subset_append_left _ _)).bind fun v => ?_
    exact ((heval right env).mono (List.subset_append_right _ _)).bind fun w =>
      (Elementary.binary op v w token.line).takes
  | cond token condition consequence alternative =>
    -- the names of the condition and of both branches, whichever is taken
    have hnames : (Expr.cond token condition consequence alternative).lets =
        condition.lets ++ (consequence.lets ++ (alternative.map Block.lets).getD []) := by
      cases alternative <;>
        simp [Expr.lets, Block.lets, Expr.ownStatements]
    rw [hnames]
    refine ((heval condition env).mono (List.subset_append_left _ _)).bind fun v => ?_
    refine .branch heval _ env fun b hb => ?_
    split at hb
    · obtain rfl := Option.some.inj hb
      exact List.subset_append_of_subset_right _ (List.subset_append_left _ _)
    · obtain rfl : alternative = some b := hb
      exact List.subset_append_of_subset_right _ (List.subset_append_right _ _)
  | function token params body => exact (Elementary.newClosure ⟨token, params, body⟩ env).takes
  | call token callee args =>
    rw [Expr.lets, Expr.ownStatements, Stmt.boundNames_append]
    refine ((heval callee env).mono (List.subset_append_left _ _)).bind fun v => ?_
    exact ((Takes.expressions heval args env).mono (List.subset_append_right _ _)).bind fun vs =>
      .apply heval v vs token.line
  | array token elements =>
    exact (Takes.expressions heval elements env).bind fun vs => (Elementary.newArray vs).takes
  | index token base index =>
    rw [Expr.lets, Expr.ownStatements, Stmt.boundNames_append]
    refine ((heval base env).mono (List.subset_append_left _ _)).bind fun v => ?_
    exact ((heval index env).mono (List.subset_append_right _ _)).bind fun w =>
      (Elementary.check token.line _).takes

end Constructs

/-- Expressions keep to their course, to whatever depth they are evaluated. -/
lemma takesCourse_expression (policy : ReleasePolicy) (depth : Nat) :
    TakesCourse policy (expression policy depth) := by
  induction depth with
  | zero => exact fun e env m => .refl m
  | succ depth ih => exact fun e env => .construct ih e env

end Eval

end Bhasha
