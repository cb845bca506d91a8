import Bhasha.Tree.Parser
import Mathlib.Data.Set.Insert

/-!
The parser without bounds.

The parser takes numbers along that bound how deep expressions nest and how often a loop goes
round. Here it is written down once more, piece by piece, without any of them: what is repeated
goes on until it stops by itself. Nothing says that it does. So a reading is a plan here, in which
the pieces that come back to themselves are called by name, and `Unbounded.Ends` says what a plan
comes to in finitely many steps. A reading that never stops has no outcome.
-/

namespace Bhasha

/-- What a reading comes to: its result, or nothing if it was abandoned, and the cursor behind
it. -/
def Reader.outcome {α : Type} (x : Reader α) (c : Cursor) : Option α × Cursor :=
  match x c with
  | .ok a c => (some a, c)
  | .error _ c => (none, c)

/-- The pieces of the parser that come back to themselves, each with the type of what it reads:
expressions, which nest, and the loops. -/
inductive Piece : Type → Type
  | expression (context : Precedence) : Piece Expr
  | continuations (context : Precedence) (left : Expr) : Piece Expr
  | moreParameters : Piece (List Identifier)
  | moreExpressions : Piece (List Expr)
  | statementsUntil (stop : Kind → Bool) : Piece (List Stmt)

/-- A reading that may be abandoned, and that may go on forever. -/
inductive Unbounded : Type → Type 1
  /-- Nothing is left to read. -/
  | done {α : Type} (a : α) : Unbounded α
  /-- A reading that needs no bound. -/
  | lift {α : Type} (x : Reader α) : Unbounded α
  /-- One reading behind another; if the first is abandoned, both are. -/
  | andThen {α β : Type} (x : Unbounded α) (f : α → Unbounded β) : Unbounded β
  /-- One reading behind another; if the first is abandoned, it has no result. -/
  | attemptThen {α β : Type} (x : Unbounded α) (f : Option α → Unbounded β) : Unbounded β
  /-- A piece of the parser. -/
  | call {α : Type} (piece : Piece α) : Unbounded α

namespace Unbounded

instance : Monad Unbounded where
  pure := done
  bind := andThen

instance : MonadLift Reader Unbounded where
  monadLift := lift

/-- A reading that has no result if it is abandoned. -/
def attempt {α : Type} (x : Unbounded α) : Unbounded (Option α) := attemptThen x done

/-! ## The pieces of the parser -/

/-- The rest of the parameters: as long as a comma follows, another one. -/
def moreParameters : Unbounded (List Identifier) := call .moreParameters

/-- An expression in a context of the given precedence. -/
def expression (context : Precedence) : Unbounded Expr := call (.expression context)

/-- The rest of a list of expressions: as long as a comma follows, another one. -/
def moreExpressions : Unbounded (List Expr) := call .moreExpressions

/-- Statements up to a token that `stop` accepts, or up to the end of the text. -/
def statementsUntil (stop : Kind → Bool) : Unbounded (List Stmt) := call (.statementsUntil stop)

/-- The expression `left` with all that continues it in the context. -/
def continuations (context : Precedence) (left : Expr) : Unbounded Expr :=
  call (.continuations context left)

/-- The rest of a list: as long as a comma follows, another item. -/
def moreItems {α : Type} (item : Unbounded α) (more : Unbounded (List α)) :
    Unbounded (List α) := do
  if (← get).peek.kind = .comma then
    lift Reader.advance
    let a ← item
    let rest ← more
    return a :: rest
  else
    return []

/-- The items between the current token and the closing one. -/
def items {α : Type} (item : Unbounded α) (more : Unbounded (List α)) (close : Kind) :
    Unbounded (List α) := do
  if (← get).peek.kind = close then
    lift Reader.advance
    return []
  else
    let a ← item
    let rest ← more
    lift (Reader.expect close)
    return a :: rest

/-- The parameters of a function literal, behind its opening parenthesis. -/
def parameters : Unbounded (List Identifier) :=
  items (lift Reader.parameter) moreParameters .rparen

/-- The whole expression behind the current token. -/
def operand : Unbounded Expr := do
  lift Reader.advance
  expression .lowest

/-- The expressions between the current token and the closing one. -/
def expressions (close : Kind) : Unbounded (List Expr) :=
  items operand moreExpressions close

/-- A binding, from its keyword on. -/
def binding : Unbounded Stmt := do
  let token := (← get).current
  lift (Reader.expect .ident)
  let name := (← get).current
  lift (Reader.expect .assign)
  let value ← operand
  lift Reader.statementEnd
  return .bind token ⟨name, name.literal⟩ value

/-- A return, from its keyword on. -/
def returning : Unbounded Stmt := do
  let token := (← get).current
  let value ← operand
  lift Reader.statementEnd
  return .ret token value

/-- An expression as a statement. -/
def expressionStatement : Unbounded Stmt := do
  let token := (← get).current
  let value ← expression .lowest
  if (← get).peek.kind = .semicolon then
    lift Reader.advance
  return .expr token value

/-- A statement. -/
def statement : Unbounded Stmt := do
  match (← get).current.kind with
  | .kwLet => binding
  | .kwReturn => returning
  | _ => expressionStatement

/-- A block, from its opening brace on. -/
def block : Unbounded Block := do
  let token := (← get).current
  lift Reader.advance
  let statements ← statementsUntil (· == .rbrace)
  let last := (← get).current
  if last.kind = .eof then
    lift (Reader.abandon (.unexpectedToken .rbrace .eof last.line))
  else
    return .mk token statements

/-- An operator and its operand. -/
def unary (op : UnaryOp) : Unbounded Expr := do
  let token := (← get).current
  lift Reader.advance
  let value ← expression .unary
  return .unary token op value

/-- An expression in parentheses. -/
def group : Unbounded Expr := do
  let value ← operand
  lift (Reader.expect .rparen)
  return value

/-- A conditional. -/
def conditional : Unbounded Expr := do
  let token := (← get).current
  lift (Reader.expect .lparen)
  let condition ← operand
  lift (Reader.expect .rparen)
  lift (Reader.expect .lbrace)
  let consequence ← block
  if (← get).peek.kind = .kwElse then
    lift Reader.advance
    lift (Reader.expect .lbrace)
    let alternative ← block
    return .cond token condition consequence (some alternative)
  else
    return .cond token condition consequence none

/-- A function literal. -/
def function : Unbounded Expr := do
  let token := (← get).current
  lift (Reader.expect .lparen)
  let params ← parameters
  lift (Reader.expect .lbrace)
  let body ← block
  return .function token params body

/-- An array literal. -/
def array : Unbounded Expr := do
  let token := (← get).current
  let elements ← expressions .rbracket
  return .array token elements

/-- What an expression starts with. -/
def leftEnd : Unbounded Expr := do
  let token := (← get).current
  match token.kind with
  | .ident => return .ident ⟨token, token.literal⟩
  | .int => lift Reader.integer
  | .str => return .str token token.literal
  | .kwTrue => return .bool token true
  | .kwFalse => return .bool token false
  | .bang => unary .not
  | .minus => unary .neg
  | .lparen => group
  | .kwIf => conditional
  | .kwFunction => function
  | .lbracket => array
  | _ => lift Reader.noExpression

/-- The expression `left` continued by the current token and what belongs to it. -/
def continuation (left : Expr) : Unbounded Expr := do
  let token := (← get).current
  match token.kind with
  | .lparen =>
    let args ← expressions .rparen
    return .call token left args
  | .lbracket =>
    let index ← operand
    lift (Reader.expect .rbracket)
    return .index token left index
  | kind =>
    match kind.binaryOp? with
    | some op =>
      lift Reader.advance
      let right ← expression kind.precedence
      return .binary token op left right
    | none => return left

/-- What is read for a piece that is called. -/
def body {α : Type} : Piece α → Unbounded α
  | .expression context => do
    let left ← leftEnd
    continuations context left
  | .continuations context left => do
    if context < (← get).peek.kind.precedence then
      lift Reader.advance
      let left ← continuation left
      continuations context left
    else
      return left
  | .moreParameters => moreItems (lift Reader.parameter) moreParameters
  | .moreExpressions => moreItems operand moreExpressions
  | .statementsUntil stop => do
    let kind := (← get).current.kind
    if stop kind || kind == .eof then
      return []
    else
      let statement? ← attempt statement
      lift Reader.advance
      let rest ← statementsUntil stop
      return statement?.toList ++ rest

/-- The statements from the current token to the end of the text. -/
def program : Unbounded Program := do
  return ⟨← statementsUntil fun _ => false⟩

/-! ## Outcomes -/

/-- What a reading comes to from a cursor, in finitely many steps. -/
inductive Ends : {α : Type} → Unbounded α → Cursor → Option α × Cursor → Prop
  | done {α : Type} {a : α} {c : Cursor} : Ends (done a) c (some a, c)
  | lift {α : Type} {x : Reader α} {c : Cursor} : Ends (lift x) c (x.outcome c)
  | andThen {α β : Type} {x : Unbounded α} {f : α → Unbounded β} {c c' : Cursor} {a : α}
      {r : Option β × Cursor} :
      Ends x c (some a, c') → Ends (f a) c' r → Ends (andThen x f) c r
  | abandoned {α β : Type} {x : Unbounded α} {f : α → Unbounded β} {c c' : Cursor} :
      Ends x c (none, c') → Ends (andThen x f) c (none, c')
  | attemptThen {α β : Type} {x : Unbounded α} {f : Option α → Unbounded β} {c c' : Cursor}
      {a? : Option α} {r : Option β × Cursor} :
      Ends x c (a?, c') → Ends (f a?) c' r → Ends (attemptThen x f) c r
  | call {α : Type} {piece : Piece α} {c : Cursor} {r : Option α × Cursor} :
      Ends (body piece) c r → Ends (call piece) c r

/-- All that a reading can come to from a cursor. -/
def outcomes {α : Type} (x : Unbounded α) (c : Cursor) : Set (Option α × Cursor) :=
  { r | x.Ends c r }

section Outcomes

variable {α β : Type} {x : Unbounded α} {f : α → Unbounded β} {c c' : Cursor}

@[simp] lemma outcomes_pure (a : α) (c : Cursor) :
    (pure a : Unbounded α).outcomes c = {(some a, c)} := by
  ext r
  constructor
  · rintro ⟨⟩
    rfl
  · rintro rfl
    exact .done

@[simp] lemma outcomes_lift (x : Reader α) (c : Cursor) :
    (lift x).outcomes c = {x.outcome c} := by
  ext r
  constructor
  · rintro ⟨⟩
    rfl
  · rintro rfl
    exact .lift

lemma outcomes_get (c : Cursor) : (get : Unbounded Cursor).outcomes c = {(some c, c)} :=
  outcomes_lift get c

lemma outcomes_advance (c : Cursor) : (lift Reader.advance).outcomes c = {(some (), c.advance)} :=
  outcomes_lift Reader.advance c

lemma outcomes_call (piece : Piece α) (c : Cursor) :
    (call piece).outcomes c = (body piece).outcomes c := by
  ext r
  constructor
  · rintro ⟨⟩
    assumption
  · exact .call

lemma ends_iff {r r' : Option α × Cursor} (h : x.outcomes c = {r'}) : x.Ends c r ↔ r = r' :=
  Set.ext_iff.1 h r

lemma ends_bind_iff {r : Option β × Cursor} :
    (x >>= f).Ends c r ↔
      (∃ a c', x.Ends c (some a, c') ∧ (f a).Ends c' r) ∨
        ∃ c', x.Ends c (none, c') ∧ (none, c') = r := by
  constructor
  · intro h
    cases h with
    | andThen hx hf => exact Or.inl ⟨_, _, hx, hf⟩
    | abandoned hx => exact Or.inr ⟨_, hx, rfl⟩
  · rintro (⟨a, c', hx, hf⟩ | ⟨c', hx, rfl⟩)
    · exact .andThen hx hf
    · exact .abandoned hx

/-- Of the first of two readings only the outcomes matter. -/
lemma outcomes_bind_congr {y : Unbounded α} (h : x.outcomes c = y.outcomes c')
    (f : α → Unbounded β) : (x >>= f).outcomes c = (y >>= f).outcomes c' := by
  have hends : ∀ r, x.Ends c r ↔ y.Ends c' r := Set.ext_iff.1 h
  ext r
  show (x >>= f).Ends c r ↔ (y >>= f).Ends c' r
  simp only [ends_bind_iff, hends]

/-- A reading behind one that stops with a result. -/
lemma outcomes_bind_of_some {a : α} (h : x.outcomes c = {(some a, c')}) :
    (x >>= f).outcomes c = (f a).outcomes c' := by
  ext r
  show (x >>= f).Ends c r ↔ (f a).Ends c' r
  simp [ends_bind_iff, ends_iff h, and_assoc]

/-- A reading behind one that is abandoned. -/
lemma outcomes_bind_of_none (h : x.outcomes c = {(none, c')}) :
    (x >>= f).outcomes c = {(none, c')} := by
  ext r
  show (x >>= f).Ends c r ↔ r = (none, c')
  simp [ends_bind_iff, ends_iff h, eq_comm]

lemma outcomes_attempt {a? : Option α} (h : x.outcomes c = {(a?, c')}) :
    (attempt x).outcomes c = {(some a?, c')} := by
  ext r
  constructor
  · intro hr
    cases hr with
    | attemptThen hx hdone =>
      obtain ⟨rfl, rfl⟩ := Prod.mk.inj ((ends_iff h).1 hx)
      cases hdone
      rfl
  · rintro rfl
    exact .attemptThen ((ends_iff h).2 rfl) .done

end Outcomes

end Unbounded

end Bhasha
