import Bhasha.Proofs.Machine.Outcome

/-!
More depth changes nothing.

An evaluation may nest to a given depth only. If that was enough, a greater depth gives the same
outcome: the depth decides whether an evaluation ends, and never how. So whether a program ends,
and in what, can be said without a depth: it ends if it does to some depth, and all depths that
are enough agree.
-/

namespace Bhasha

namespace Eval

variable {α β : Type}

/-- Wherever the first evaluation does not run out of depth, the second does the same. -/
def Within (x y : Eval α) : Prop :=
  ∀ m, (x.outcome m).1 ≠ .error .exhausted → y.outcome m = x.outcome m

lemma Within.refl (x : Eval α) : Within x x :=
  fun _ _ => rfl

lemma Within.trans {x y z : Eval α} (hxy : Within x y) (hyz : Within y z) : Within x z := by
  intro m hx
  have hy := hxy m hx
  rw [← hy] at hx
  rw [hyz m hx, hy]

lemma Within.bind {x y : Eval α} {f g : α → Eval β} (hxy : Within x y)
    (hfg : ∀ a, Within (f a) (g a)) : Within (x >>= f) (y >>= g) := by
  intro m hx
  rcases hout : x.outcome m with ⟨i | a, m₁⟩
  · rw [outcome_bind_of_error hout] at hx ⊢
    have hy := hxy m (by rw [hout]; exact fun h => hx (by rw [Except.error.inj h]))
    rw [hout] at hy
    rw [outcome_bind_of_error hy]
  · rw [outcome_bind_of_ok hout] at hx ⊢
    have hy := hxy m (by rw [hout]; exact fun h => nomatch h)
    rw [hout] at hy
    rw [outcome_bind_of_ok hy, hfg a m₁ hx]

/-- An interrupt that is caught has to be passed on if it is the lack of depth. -/
lemma Within.attempt_bind {x y : Eval α} {f g : Except Interrupt α → Eval β} (hxy : Within x y)
    (hfg : ∀ r, Within (f r) (g r))
    (hpass : ∀ m, ((f (.error .exhausted)).outcome m).1 = .error .exhausted) :
    Within (attempt x >>= f) (attempt y >>= g) := by
  intro m hx
  rw [outcome_bind_of_ok (outcome_attempt x m)] at hx ⊢
  have hne : (x.outcome m).1 ≠ .error .exhausted := by
    intro h
    rw [h] at hx
    exact hx (hpass _)
  rw [outcome_bind_of_ok (outcome_attempt y m), hxy m hne, hfg _ _ hx]

/-! ## Constructs -/

section Constructs

variable {eval eval' : Expr → Env → Eval Value} (heval : ∀ e env, Within (eval e env) (eval' e env))
include heval

lemma Within.statement (s : Stmt) (env : Env) :
    Within (statement eval s env) (statement eval' s env) := by
  cases s with
  | bind token id value => exact (heval value env).bind fun _ => .refl _
  | ret token value => exact (heval value env).bind fun _ => .refl _
  | expr token value => exact (heval value env).bind fun _ => .refl _

lemma Within.statements (env : Env) (result : Option Value) (ss : List Stmt) :
    Within (statements eval env result ss) (statements eval' env result ss) := by
  induction ss generalizing result with
  | nil => exact .refl _
  | cons s rest ih => exact (Within.statement heval s env).bind fun r => ih r

lemma Within.block (b : Block) (env : Env) :
    Within (block eval b env) (block eval' b env) :=
  .statements heval env none b.statements

lemma Within.programStatements (env : Env) (result : Option Value) (ss : List Stmt) :
    Within (programStatements eval env result ss) (programStatements eval' env result ss) := by
  intro m hx
  rw [outcome_programStatements] at hx
  have hne : ((Eval.statements eval env result ss).outcome m).1 ≠ .error .exhausted := by
    intro h
    rw [h] at hx
    exact hx rfl
  rw [outcome_programStatements, outcome_programStatements,
    Within.statements heval env result ss m hne]

lemma Within.expressions (env : Env) (es : List Expr) :
    Within (expressions eval env es) (expressions eval' env es) := by
  induction es with
  | nil => exact .refl _
  | cons e rest ih => exact (heval e env).bind fun _ => ih.bind fun _ => .refl _

lemma Within.branch (env : Env) (b? : Option Block) :
    Within (branch eval env b?) (branch eval' env b?) := by
  cases b? with
  | none => exact .refl _
  | some b => exact (Within.block heval b env).bind fun _ => .refl _

lemma Within.applyClosure (policy : ReleasePolicy) (lambda : Lambda) (env : Env)
    (args : List Value) (line : Nat) :
    Within (applyClosure policy eval lambda env args line)
      (applyClosure policy eval' lambda env args line) := by
  unfold Eval.applyClosure
  split
  · refine (Within.refl _).bind fun mark => (Within.refl _).bind fun scope => ?_
    exact (Within.block heval lambda.body scope).attempt_bind (fun _ => .refl _) fun m => by
      rw [outcome_bind_of_ok (outcome_releaseCallFrames _ _ _ _)]
      rfl
  · exact .refl _

lemma Within.apply (policy : ReleasePolicy) (callee : Value) (args : List Value) (line : Nat) :
    Within (apply policy eval callee args line) (apply policy eval' callee args line) := by
  cases callee with
  | closure id lambda env => exact .applyClosure heval policy lambda env args line
  | builtin b => exact .refl _
  | int _ | bool _ | str _ _ | array _ _ | null => exact .refl _

lemma Within.construct (policy : ReleasePolicy) (e : Expr) (env : Env) :
    Within (construct policy eval e env) (construct policy eval' e env) := by
  cases e with
  | ident id => exact .refl _
  | int token value => exact .refl _
  | str token value => exact .refl _
  | bool token value => exact .refl _
  | unary token op operand => exact (heval operand env).bind fun _ => .refl _
  | binary token op left right =>
    exact (heval left env).bind fun _ => (heval right env).bind fun _ => .refl _
  | cond token condition consequence alternative =>
    exact (heval condition env).bind fun _ => .branch heval env _
  | function token params body => exact .refl _
  | call token callee args =>
    exact (heval callee env).bind fun _ =>
      (Within.expressions heval env args).bind fun _ => .apply heval policy _ _ _
  | array token elements => exact (Within.expressions heval env elements).bind fun _ => .refl _
  | index token base index =>
    exact (heval base env).bind fun _ => (heval index env).bind fun _ => .refl _

end Constructs

lemma within_expression_succ (policy : ReleasePolicy) (depth : Nat) (e : Expr) (env : Env) :
    Within (expression policy depth e env) (expression policy (depth + 1) e env) := by
  induction depth generalizing e env with
  | zero => exact fun m hx => absurd rfl hx
  | succ depth ih => exact .construct ih policy e env

lemma within_expression (policy : ReleasePolicy) {depth depth' : Nat} (h : depth ≤ depth')
    (e : Expr) (env : Env) :
    Within (expression policy depth e env) (expression policy depth' e env) := by
  induction h with
  | refl => exact .refl _
  | step _ ih => exact ih.trans (within_expression_succ policy _ e env)

/-- A program that ends within some depth ends in the same way within any greater one. -/
lemma within_program (policy : ReleasePolicy) {depth depth' : Nat} (h : depth ≤ depth')
    (p : Program) (env : Env) :
    Within (program policy depth p env) (program policy depth' p env) :=
  .programStatements (within_expression policy h) env none p.statements

end Eval

/-! ## Whole programs -/

instance (a : Answer) : Decidable (a = .exhausted) :=
  match a with
  | .exhausted => isTrue rfl
  | .value _ | .unreadable _ | .failed _ => isFalse fun h => nomatch h

lemma Answer.ofOutcome_eq_exhausted {r : Except Interrupt (Option Value)} :
    Answer.ofOutcome r = .exhausted ↔ r = .error .exhausted := by
  rcases r with (v | fault | _) | value <;> simp [Answer.ofOutcome]

namespace Machine

variable {policy : ReleasePolicy} {p : Program} {m m₁ m₂ : Machine} {a₁ a₂ : Answer}

/-- A program in the outermost environment ends with an answer, whatever depth that takes. -/
def Ends (policy : ReleasePolicy) (p : Program) (m : Machine) (a : Answer) (m' : Machine) : Prop :=
  ∃ depth, m.evaluateUnder policy p Env.global depth = (a, m') ∧ a ≠ .exhausted

/-- All depths that are enough agree. -/
lemma evaluateUnder_eq_of_le {depth depth' : Nat} (h : depth ≤ depth')
    (hne : (m.evaluateUnder policy p Env.global depth).1 ≠ .exhausted) :
    m.evaluateUnder policy p Env.global depth' = m.evaluateUnder policy p Env.global depth := by
  have hout := Eval.within_program policy h p Env.global m fun hx =>
    hne (Answer.ofOutcome_eq_exhausted.2 hx)
  unfold evaluateUnder
  rw [hout]

lemma Ends.ne_exhausted (h : m.Ends policy p a₁ m₁) : a₁ ≠ .exhausted :=
  h.choose_spec.2

/-- A program that ends does so within every depth that is great enough. -/
lemma Ends.exists_forall_le (h : m.Ends policy p a₁ m₁) :
    ∃ depth, ∀ depth', depth ≤ depth' →
      m.evaluateUnder policy p Env.global depth' = (a₁, m₁) := by
  obtain ⟨depth, heq, hne⟩ := h
  refine ⟨depth, fun depth' hle => ?_⟩
  rw [evaluateUnder_eq_of_le hle (by rw [heq]; exact hne), heq]

/-- Two programs that end, each in its own way, do so within one depth. -/
lemma Ends.exists_depth {policy' : ReleasePolicy} {m' : Machine}
    (h₁ : m.Ends policy p a₁ m₁) (h₂ : m'.Ends policy' p a₂ m₂) :
    ∃ depth, m.evaluateUnder policy p Env.global depth = (a₁, m₁) ∧
      m'.evaluateUnder policy' p Env.global depth = (a₂, m₂) := by
  obtain ⟨d₁, heq₁⟩ := h₁.exists_forall_le
  obtain ⟨d₂, heq₂⟩ := h₂.exists_forall_le
  exact ⟨max d₁ d₂, heq₁ _ (Nat.le_max_left d₁ d₂), heq₂ _ (Nat.le_max_right d₁ d₂)⟩

/-- A program ends in one way. -/
lemma Ends.unique (h₁ : m.Ends policy p a₁ m₁) (h₂ : m.Ends policy p a₂ m₂) :
    a₁ = a₂ ∧ m₁ = m₂ := by
  obtain ⟨depth, heq₁, heq₂⟩ := h₁.exists_depth h₂
  rw [heq₁, Prod.mk.injEq] at heq₂
  exact heq₂

end Machine

end Bhasha
