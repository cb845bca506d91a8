import Bhasha.Proofs.Tree.Faithful

/-!
Where the tokens of a tree come from.

A tree is made of the tokens of its text, in their order, and no token is used twice. This also
holds where statements were abandoned: what was read of them is dropped, and reading goes on behind
the token it had come to, so nothing that was read before is met again.

A piece of reading starts on its first token and ends on its last, which is still ahead when the
piece is done. So what a piece has taken is compared with the cursor one token further on
(`Cursor.Took`), and a piece that starts behind the current token is compared with the cursor one
token further on at both ends.
-/

namespace Bhasha

/-! ## The tokens of a tree -/

mutual

/-- The tokens of an expression in the order they stand in. -/
def Expr.tokens : Expr → List Token
  | .ident id => [id.token]
  | .int token _ | .str token _ | .bool token _ => [token]
  | .unary token _ operand => token :: operand.tokens
  | .binary token _ left right => left.tokens ++ token :: right.tokens
  | .cond token condition consequence none => token :: (condition.tokens ++ consequence.tokens)
  | .cond token condition consequence (some alternative) =>
    token :: (condition.tokens ++ (consequence.tokens ++ alternative.tokens))
  | .function token params body => token :: (params.map Identifier.token ++ body.tokens)
  | .call token callee args => callee.tokens ++ token :: Expr.tokensAll args
  | .array token elements => token :: Expr.tokensAll elements
  | .index token base index => base.tokens ++ token :: index.tokens

/-- The tokens of expressions. -/
def Expr.tokensAll : List Expr → List Token
  | [] => []
  | e :: rest => e.tokens ++ Expr.tokensAll rest

/-- The tokens of a statement. The token of an expression by itself is not counted: it is one of the
expression, or a parenthesis before it. -/
def Stmt.tokens : Stmt → List Token
  | .bind token id value => token :: id.token :: value.tokens
  | .ret token value => token :: value.tokens
  | .expr _ value => value.tokens

/-- The tokens of statements. -/
def Stmt.tokensAll : List Stmt → List Token
  | [] => []
  | s :: rest => s.tokens ++ Stmt.tokensAll rest

/-- The tokens of a block. -/
def Block.tokens : Block → List Token
  | .mk token statements => token :: Stmt.tokensAll statements

end

/-- The tokens of a program. -/
def Program.tokens (p : Program) : List Token :=
  Stmt.tokensAll p.statements

lemma Expr.tokensAll_eq_flatMap (es : List Expr) : Expr.tokensAll es = es.flatMap Expr.tokens := by
  induction es with
  | nil => rfl
  | cons e es ih => exact congrArg (e.tokens ++ ·) ih

lemma Stmt.tokensAll_append (ss ss' : List Stmt) :
    Stmt.tokensAll (ss ++ ss') = Stmt.tokensAll ss ++ Stmt.tokensAll ss' := by
  induction ss with
  | nil => rfl
  | cons s ss ih =>
    show s.tokens ++ Stmt.tokensAll (ss ++ ss') = (s.tokens ++ Stmt.tokensAll ss) ++ _
    rw [ih, List.append_assoc]

/-! ## Taking tokens -/

namespace Cursor

variable {c c' c'' : Cursor} {ts us : List Token}

/-- Between the two cursors the tokens `ts` stand in this order, perhaps with others among them. -/
def Took (c : Cursor) (ts : List Token) (c' : Cursor) : Prop :=
  (ts ++ c'.ahead).Sublist c.ahead

lemma Leads.took (h : c.Leads c') : c.Took [] c' :=
  h.ahead.sublist

lemma Took.trans (h : c.Took ts c') (h' : c'.Took us c'') : c.Took (ts ++ us) c'' := by
  unfold Took
  rw [List.append_assoc]
  exact (h'.append_left ts).trans h

lemma Took.leads (h : c.Took ts c') (h' : c'.Leads c'') : c.Took ts c'' := by
  simpa using h.trans h'.took

lemma Leads.trans_took (h : c.Leads c') (h' : c'.Took ts c'') : c.Took ts c'' :=
  h.took.trans h'

/-- The current token is taken by moving on, unless it is the end token. -/
lemma Ended.took_current (hc : c.Ended) {kind : Kind} (hk : c.current.kind = kind)
    (hkind : kind ≠ .eof) : c.Took [c.current] c.advance := by
  obtain ⟨ahead, last, faults⟩ := c
  cases ahead with
  | nil => exact absurd (hk.symm.trans hc.last) hkind
  | cons t ahead => exact List.Sublist.refl _

end Cursor

namespace Reader

variable {α : Type} {c c' : Cursor}

/-- A piece that starts on its first token takes the tokens of what it yields. -/
def TakesFrom (x : Reader α) (tokens : α → List Token) : Prop :=
  ∀ {c c' : Cursor} {a : α}, c.Ended → Yields x c a c' → c.Took (tokens a) c'.advance

/-- A piece that starts behind the current token takes the tokens of what it yields. -/
def TakesBehind (x : Reader α) (tokens : α → List Token) : Prop :=
  ∀ {c c' : Cursor} {a : α}, c.Ended → Yields x c a c' → c.advance.Took (tokens a) c'.advance

/-! ## Lists -/

lemma takesBehind_moreItems {item : Reader α} [Forward item] {tokens : α → List Token}
    (hitem : TakesBehind item tokens) (n : Nat) :
    TakesBehind (moreItems item n) (·.flatMap tokens) := by
  induction n with
  | zero =>
    intro c c' as _ h
    obtain ⟨rfl, rfl⟩ := yields_pure h
    exact (Cursor.Leads.refl _).took
  | succ n ih =>
    intro c c' as hc h
    rw [moreItems, yields_get] at h
    split at h
    · obtain ⟨_, c₁, hcomma, h⟩ := yields_bind h
      have hc₁ := hcomma.ended hc
      obtain ⟨a, c₂, ha, h⟩ := yields_bind h
      have hc₂ := ha.ended hc₁
      obtain ⟨rest, c₃, hrest, h⟩ := yields_bind h
      obtain ⟨rfl, rfl⟩ := yields_pure h
      exact hcomma.leads.advance.trans_took ((hitem hc₁ ha).trans (ih hc₂ hrest))
    · obtain ⟨rfl, rfl⟩ := yields_pure h
      exact (Cursor.Leads.refl _).took

lemma takesBehind_items {item : Reader α} [Forward item] {tokens : α → List Token}
    (hitem : TakesBehind item tokens) (close : Kind) :
    TakesBehind (items item close) (·.flatMap tokens) := by
  intro c c' as hc h
  rw [items, yields_get] at h
  split at h
  · obtain ⟨_, c₁, hclose, h⟩ := yields_bind h
    obtain ⟨rfl, rfl⟩ := yields_pure h
    exact hclose.leads.advance.took
  · obtain ⟨a, c₁, ha, h⟩ := yields_bind h
    have hc₁ := ha.ended hc
    rw [yields_get] at h
    obtain ⟨rest, c₂, hrest, h⟩ := yields_bind h
    obtain ⟨_, c₃, hclose, h⟩ := yields_bind h
    obtain ⟨rfl, rfl⟩ := yields_pure h
    exact ((hitem hc ha).trans (takesBehind_moreItems hitem _ hc₁ hrest)).leads
      hclose.leads.advance

lemma takesBehind_parameter : TakesBehind parameter ([·.token]) := by
  intro c c' id hc h
  rw [parameter] at h
  obtain ⟨_, c₁, hident, h⟩ := yields_bind h
  have hk := kind_current_of_expect hident
  have hc₁ := hident.ended hc
  obtain ⟨-, rfl⟩ := yields_expect hident
  rw [yields_get] at h
  obtain ⟨rfl, rfl⟩ := yields_pure h
  exact hc₁.took_current hk (by decide)

lemma takesBehind_parameters : TakesBehind parameters (·.map Identifier.token) := by
  intro c c' ids hc h
  dsimp only
  rw [List.map_eq_flatMap]
  exact takesBehind_items takesBehind_parameter _ hc h

/-! ## Statements -/

section Pieces

variable {expression : Precedence → Reader Expr}
  (hexpr : ∀ context, TakesFrom (expression context) Expr.tokens)
include hexpr

lemma takesBehind_operand : TakesBehind (operand expression) Expr.tokens := by
  intro c c' e hc h
  rw [operand] at h
  obtain ⟨_, c₁, hadvance, h⟩ := yields_bind h
  have hc₁ := hadvance.ended hc
  obtain rfl := yields_advance hadvance
  exact hexpr _ hc₁ h

lemma took_binding {s : Stmt} (hc : c.Ended) (hk : c.current.kind = .kwLet)
    (h : Yields (binding expression) c s c') : c.Took s.tokens c'.advance := by
  rw [binding, yields_get] at h
  obtain ⟨_, c₁, hident, h⟩ := yields_bind h
  have hk₁ := kind_current_of_expect hident
  have hc₁ := hident.ended hc
  obtain ⟨-, rfl⟩ := yields_expect hident
  rw [yields_get] at h
  obtain ⟨_, c₂, hassign, h⟩ := yields_bind h
  have hc₂ := hassign.ended hc₁
  obtain ⟨e, c₃, he, h⟩ := yields_bind h
  obtain ⟨_, c₄, hend, h⟩ := yields_bind h
  obtain ⟨rfl, rfl⟩ := yields_pure h
  have hvalue := (takesBehind_operand hexpr hc₂ he).leads hend.leads.advance
  refine (hc.took_current hk (by decide)).trans ((hc₁.took_current hk₁ (by decide)).trans ?_)
  exact hassign.leads.advance.trans_took hvalue

lemma took_returning {s : Stmt} (hc : c.Ended) (hk : c.current.kind = .kwReturn)
    (h : Yields (returning expression) c s c') : c.Took s.tokens c'.advance := by
  rw [returning, yields_get] at h
  obtain ⟨e, c₁, he, h⟩ := yields_bind h
  obtain ⟨_, c₂, hend, h⟩ := yields_bind h
  obtain ⟨rfl, rfl⟩ := yields_pure h
  refine (hc.took_current hk (by decide)).trans ?_
  exact (takesBehind_operand hexpr hc he).leads hend.leads.advance

lemma takesFrom_expressionStatement :
    TakesFrom (expressionStatement expression) Stmt.tokens := by
  intro c c' s hc h
  rw [expressionStatement, yields_get] at h
  obtain ⟨e, c₁, he, h⟩ := yields_bind h
  have htook : c.Took e.tokens c₁.advance := hexpr _ hc he
  rw [yields_get] at h
  split at h
  · obtain ⟨_, c₂, hsemicolon, h⟩ := yields_bind h
    obtain ⟨rfl, rfl⟩ := yields_pure h
    exact htook.leads hsemicolon.leads.advance
  · obtain ⟨rfl, rfl⟩ := yields_pure h
    exact htook

lemma takesFrom_statement : TakesFrom (statement expression) Stmt.tokens := by
  intro c c' s hc h
  rw [statement, yields_get] at h
  split at h
  · rename_i hk
    exact took_binding hexpr hc hk h
  · rename_i hk
    exact took_returning hexpr hc hk h
  · exact takesFrom_expressionStatement hexpr hc h

variable [∀ context, Forward (expression context)]

/-- An abandoned statement takes no token into the tree, but it leaves behind it those it had
passed. -/
lemma takesFrom_attempt_statement :
    TakesFrom (attempt (statement expression)) (Stmt.tokensAll ·.toList) := by
  intro c c' r hc h
  unfold Yields at h
  rcases hs : statement expression c with ⟨s, c₁⟩ | ⟨i, c₁⟩
  · rw [attempt_of_ok hs] at h
    obtain ⟨rfl, rfl⟩ := EStateM.Result.ok.inj h
    show c.Took (s.tokens ++ []) c₁.advance
    rw [List.append_nil]
    exact takesFrom_statement hexpr hc hs
  · rw [attempt_of_error hs] at h
    obtain ⟨rfl, rfl⟩ := EStateM.Result.ok.inj h
    exact ((Forward.leads_of_error hs).1.trans (Cursor.leads_advance _)).took

/-- The token that ends the statements is not taken, so here the cursors are compared as they
are. -/
lemma took_statementsUntil {stop : Kind → Bool} {n : Nat} {ss : List Stmt} (hc : c.Ended)
    (h : Yields (statementsUntil expression stop n) c ss c') : c.Took (Stmt.tokensAll ss) c' := by
  induction n generalizing c ss with
  | zero =>
    obtain ⟨rfl, rfl⟩ := yields_pure h
    exact (Cursor.Leads.refl _).took
  | succ n ih =>
    rw [statementsUntil, yields_get] at h
    dsimp only at h
    split at h
    · obtain ⟨rfl, rfl⟩ := yields_pure h
      exact (Cursor.Leads.refl _).took
    · obtain ⟨r, c₁, hr, h⟩ := yields_bind h
      have hc₁ := hr.ended hc
      obtain ⟨_, c₂, hadvance, h⟩ := yields_bind h
      have hc₂ := hadvance.ended hc₁
      obtain rfl := yields_advance hadvance
      obtain ⟨rest, c₃, hrest, h⟩ := yields_bind h
      obtain ⟨rfl, rfl⟩ := yields_pure h
      rw [Stmt.tokensAll_append]
      exact (takesFrom_attempt_statement hexpr hc hr).trans (ih hc₂ hrest)

lemma took_block {b : Block} (hc : c.Ended) (hk : c.current.kind = .lbrace)
    (h : Yields (block expression) c b c') : c.Took b.tokens c'.advance := by
  rw [block, yields_get] at h
  obtain ⟨_, c₁, hadvance, h⟩ := yields_bind h
  have hc₁ := hadvance.ended hc
  obtain rfl := yields_advance hadvance
  rw [yields_get] at h
  obtain ⟨ss, c₂, hss, h⟩ := yields_bind h
  rw [yields_get] at h
  dsimp only at h
  split at h
  · exact absurd h not_yields_abandon
  · obtain ⟨rfl, rfl⟩ := yields_pure h
    refine (hc.took_current hk (by decide)).trans ?_
    exact (took_statementsUntil hexpr hc₁ hss).leads (Cursor.leads_advance _)

/-! ## Expressions -/

omit hexpr [∀ context, Forward (expression context)] in
lemma took_integer {e : Expr} (hc : c.Ended) (hk : c.current.kind = .int)
    (h : Yields integer c e c') : c.Took e.tokens c'.advance := by
  rw [integer, yields_get] at h
  dsimp only at h
  split at h
  · obtain ⟨rfl, rfl⟩ := yields_pure h
    exact hc.took_current hk (by decide)
  · exact absurd h not_yields_abandon

omit [∀ context, Forward (expression context)] in
lemma took_unary {op : UnaryOp} {e : Expr} (hc : c.Ended) (hk : c.current.kind ≠ .eof)
    (h : Yields (unary expression op) c e c') : c.Took e.tokens c'.advance := by
  rw [unary, yields_get] at h
  obtain ⟨_, c₁, hadvance, h⟩ := yields_bind h
  have hc₁ := hadvance.ended hc
  obtain rfl := yields_advance hadvance
  obtain ⟨e', c₂, he, h⟩ := yields_bind h
  obtain ⟨rfl, rfl⟩ := yields_pure h
  exact (hc.took_current rfl hk).trans (hexpr _ hc₁ he)

omit [∀ context, Forward (expression context)] in
/-- Parentheses leave no token in the tree. -/
lemma takesFrom_group : TakesFrom (group expression) Expr.tokens := by
  intro c c' e hc h
  rw [group] at h
  obtain ⟨e', c₁, he, h⟩ := yields_bind h
  obtain ⟨_, c₂, hclose, h⟩ := yields_bind h
  obtain ⟨rfl, rfl⟩ := yields_pure h
  exact (Cursor.leads_advance c).trans_took
    ((takesBehind_operand hexpr hc he).leads hclose.leads.advance)

lemma took_conditional {e : Expr} (hc : c.Ended) (hk : c.current.kind = .kwIf)
    (h : Yields (conditional expression) c e c') : c.Took e.tokens c'.advance := by
  rw [conditional, yields_get] at h
  obtain ⟨_, c₁, hparen, h⟩ := yields_bind h
  have hc₁ := hparen.ended hc
  obtain ⟨condition, c₂, hcondition, h⟩ := yields_bind h
  have hc₂ := hcondition.ended hc₁
  obtain ⟨_, c₃, hclose, h⟩ := yields_bind h
  have hc₃ := hclose.ended hc₂
  obtain ⟨_, c₄, hbrace, h⟩ := yields_bind h
  have hc₄ := hbrace.ended hc₃
  obtain ⟨b, c₅, hb, h⟩ := yields_bind h
  have hc₅ := hb.ended hc₄
  -- the keyword, then the condition behind the parenthesis, then the block
  have hfirst : c.advance.Took condition.tokens c₄ :=
    hparen.leads.advance.trans_took ((takesBehind_operand hexpr hc₁ hcondition).leads
      ((yields_expect hclose).2 ▸ hbrace.leads))
  have hthen := took_block hexpr hc₄ (kind_current_of_expect hbrace) hb
  rw [yields_get] at h
  split at h
  · obtain ⟨_, c₆, helse, h⟩ := yields_bind h
    have hc₆ := helse.ended hc₅
    obtain ⟨_, c₇, hbrace', h⟩ := yields_bind h
    have hc₇ := hbrace'.ended hc₆
    obtain ⟨b', c₈, hb', h⟩ := yields_bind h
    obtain ⟨rfl, rfl⟩ := yields_pure h
    have helse' := took_block hexpr hc₇ (kind_current_of_expect hbrace') hb'
    have hbetween : c₅.advance.Leads c₇ := yields_advance helse ▸ hbrace'.leads
    refine (hc.took_current hk (by decide)).trans (hfirst.trans (hthen.trans ?_))
    exact hbetween.trans_took helse'
  · obtain ⟨rfl, rfl⟩ := yields_pure h
    exact (hc.took_current hk (by decide)).trans (hfirst.trans hthen)

lemma took_function {e : Expr} (hc : c.Ended) (hk : c.current.kind = .kwFunction)
    (h : Yields (function expression) c e c') : c.Took e.tokens c'.advance := by
  rw [function, yields_get] at h
  obtain ⟨_, c₁, hparen, h⟩ := yields_bind h
  have hc₁ := hparen.ended hc
  obtain ⟨ids, c₂, hids, h⟩ := yields_bind h
  have hc₂ := hids.ended hc₁
  obtain ⟨_, c₃, hbrace, h⟩ := yields_bind h
  have hc₃ := hbrace.ended hc₂
  obtain ⟨b, c₄, hb, h⟩ := yields_bind h
  obtain ⟨rfl, rfl⟩ := yields_pure h
  have hparams := takesBehind_parameters hc₁ hids
  have hbody := took_block hexpr hc₃ (kind_current_of_expect hbrace) hb
  rw [(yields_expect hbrace).2] at hparams
  refine (hc.took_current hk (by decide)).trans ?_
  exact hparen.leads.advance.trans_took (hparams.trans hbody)

lemma takesBehind_expressions (close : Kind) :
    TakesBehind (items (operand expression) close) Expr.tokensAll := by
  intro c c' es hc h
  rw [Expr.tokensAll_eq_flatMap]
  exact takesBehind_items (takesBehind_operand hexpr) close hc h

lemma took_array {e : Expr} (hc : c.Ended) (hk : c.current.kind = .lbracket)
    (h : Yields (array expression) c e c') : c.Took e.tokens c'.advance := by
  rw [array, yields_get] at h
  obtain ⟨es, c₁, hes, h⟩ := yields_bind h
  obtain ⟨rfl, rfl⟩ := yields_pure h
  exact (hc.took_current hk (by decide)).trans (takesBehind_expressions hexpr _ hc hes)

lemma takesFrom_leftEnd : TakesFrom (leftEnd expression) Expr.tokens := by
  intro c c' e hc h
  rw [leftEnd, yields_get] at h
  dsimp only at h
  split at h
  · rename_i hk
    obtain ⟨rfl, rfl⟩ := yields_pure h
    exact hc.took_current hk (by decide)
  · rename_i hk
    exact took_integer hc hk h
  · rename_i hk
    obtain ⟨rfl, rfl⟩ := yields_pure h
    exact hc.took_current hk (by decide)
  · rename_i hk
    obtain ⟨rfl, rfl⟩ := yields_pure h
    exact hc.took_current hk (by decide)
  · rename_i hk
    obtain ⟨rfl, rfl⟩ := yields_pure h
    exact hc.took_current hk (by decide)
  · rename_i hk
    exact took_unary hexpr hc (by rw [hk]; decide) h
  · rename_i hk
    exact took_unary hexpr hc (by rw [hk]; decide) h
  · exact takesFrom_group hexpr hc h
  · rename_i hk
    exact took_conditional hexpr hc hk h
  · rename_i hk
    exact took_function hexpr hc hk h
  · rename_i hk
    exact took_array hexpr hc hk h
  · exact absurd h not_yields_abandon

/-- The tokens of what continues an expression stand behind its own. -/
lemma took_continuation {left e : Expr} (hc : c.Ended)
    (h : Yields (continuation expression left) c e c') :
    ∃ ts, e.tokens = left.tokens ++ ts ∧ c.Took ts c'.advance := by
  rw [continuation, yields_get] at h
  dsimp only at h
  split at h
  · rename_i hk
    obtain ⟨args, c₁, hargs, h⟩ := yields_bind h
    obtain ⟨rfl, rfl⟩ := yields_pure h
    refine ⟨c.current :: Expr.tokensAll args, rfl, ?_⟩
    exact (hc.took_current hk (by decide)).trans (takesBehind_expressions hexpr _ hc hargs)
  · rename_i hk
    obtain ⟨index, c₁, hindex, h⟩ := yields_bind h
    obtain ⟨_, c₂, hclose, h⟩ := yields_bind h
    obtain ⟨rfl, rfl⟩ := yields_pure h
    refine ⟨c.current :: index.tokens, rfl, (hc.took_current hk (by decide)).trans ?_⟩
    exact (takesBehind_operand hexpr hc hindex).leads hclose.leads.advance
  · split at h
    · rename_i op hop
      obtain ⟨_, c₁, hadvance, h⟩ := yields_bind h
      have hc₁ := hadvance.ended hc
      obtain rfl := yields_advance hadvance
      obtain ⟨right, c₂, hright, h⟩ := yields_bind h
      obtain ⟨rfl, rfl⟩ := yields_pure h
      have hk : c.current.kind ≠ .eof := by
        intro hk
        rw [hk] at hop
        cases hop
      refine ⟨c.current :: right.tokens, rfl, ?_⟩
      exact (hc.took_current rfl hk).trans (hexpr _ hc₁ hright)
    · obtain ⟨rfl, rfl⟩ := yields_pure h
      exact ⟨[], (List.append_nil _).symm, (Cursor.leads_advance _).took⟩

lemma took_continuations {context : Precedence} {n : Nat} {left e : Expr} (hc : c.Ended)
    (h : Yields (continuations expression context n left) c e c') :
    ∃ ts, e.tokens = left.tokens ++ ts ∧ c.advance.Took ts c'.advance := by
  induction n generalizing c left with
  | zero =>
    obtain ⟨rfl, rfl⟩ := yields_pure h
    exact ⟨[], (List.append_nil _).symm, (Cursor.Leads.refl _).took⟩
  | succ n ih =>
    rw [continuations, yields_get] at h
    split at h
    · obtain ⟨_, c₁, hadvance, h⟩ := yields_bind h
      have hc₁ := hadvance.ended hc
      obtain rfl := yields_advance hadvance
      obtain ⟨left', c₂, hleft', h⟩ := yields_bind h
      obtain ⟨ts, hts, htook⟩ := took_continuation hexpr hc₁ hleft'
      obtain ⟨us, hus, htook'⟩ := ih (hleft'.ended hc₁) h
      exact ⟨ts ++ us, by rw [hus, hts, List.append_assoc], htook.trans htook'⟩
    · obtain ⟨rfl, rfl⟩ := yields_pure h
      exact ⟨[], (List.append_nil _).symm, (Cursor.Leads.refl _).took⟩

end Pieces

lemma takesFrom_expressionWithin (n : Nat) (context : Precedence) :
    TakesFrom (expressionWithin n context) Expr.tokens := by
  induction n generalizing context with
  | zero =>
    intro c c' e _ h
    exact absurd h not_yields_abandon
  | succ n ih =>
    intro c c' e hc h
    rw [expressionWithin] at h
    obtain ⟨left, c₁, hleft, h⟩ := yields_bind h
    have hc₁ := hleft.ended hc
    rw [yields_get] at h
    obtain ⟨ts, hts, htook⟩ := took_continuations ih hc₁ h
    rw [hts]
    exact (takesFrom_leftEnd ih hc hleft).trans htook

lemma took_program {p : Program} (hc : c.Ended) (h : Yields program c p c') :
    c.Took p.tokens c' := by
  rw [program, yields_get] at h
  obtain ⟨ss, c₁, hss, h⟩ := yields_bind h
  obtain ⟨rfl, rfl⟩ := yields_pure h
  exact took_statementsUntil (takesFrom_expressionWithin _) hc hss

end Reader

lemma Program.tokens_read_sublist (text : String) :
    (Program.read text).1.tokens.Sublist (Scanner.ofString text).tokens.1 := by
  rcases h : Reader.program (Cursor.ofString text) with ⟨p, c⟩ | ⟨i, c⟩
  · rw [Program.read, Cursor.program, h]
    have htook := Reader.took_program (Cursor.ended_ofString text) h
    exact (List.sublist_append_left _ _).trans htook
  · rw [Program.read, Cursor.program, h]
    exact List.nil_sublist _

/-- Whatever the text, with faults or without: the tokens of the tree that is read are tokens of the
text, in the order they have there and each used once, and every node agrees with its token. -/
theorem Program.read_made_of_tokens (text : String) :
    (Program.read text).1.tokens.Sublist (Scanner.ofString text).tokens.1 ∧
      (Program.read text).1.Faithful :=
  ⟨Program.tokens_read_sublist text, Program.faithful_read text⟩

-- the binding is abandoned on its name, and what stands behind the name is read as statements
example : (Program.read "let a 1; f(b)").1.tokens.map Token.kind =
    [.int, .ident, .lparen, .ident] := by decide +kernel

end Bhasha
