import Bhasha.Proofs.Token.Scanning
import Bhasha.Proofs.Tree.Reading

/-!
Trees that agree with their tokens.

Every node of a tree keeps the token it was read from beside what the token means. The two agree
in every tree that was read from a text, also where the text has faults: an abandoned statement
leaves nothing behind, and what was read around it was read in full.
-/

namespace Bhasha

/-- The token is proper and of the given kind. -/
structure Token.Is (t : Token) (kind : Kind) : Prop where
  proper : t.Proper
  kind : t.kind = kind

/-- The name of an identifier is the word it was read from. -/
structure Identifier.Faithful (id : Identifier) : Prop where
  token : id.token.Is .ident
  name : id.name = id.token.literal

mutual

/-- The expression agrees with its tokens. -/
inductive Expr.Faithful : Expr → Prop
  | ident {id : Identifier} : id.Faithful → Expr.Faithful (.ident id)
  | int {t : Token} {n : Int64} : t.Is .int → n.toInt = Number.ofDigits t.literal.toList →
      Expr.Faithful (.int t n)
  | str {t : Token} : t.Is .str → Expr.Faithful (.str t t.literal)
  | true {t : Token} : t.Is .kwTrue → Expr.Faithful (.bool t true)
  | false {t : Token} : t.Is .kwFalse → Expr.Faithful (.bool t false)
  | unary {t : Token} {op : UnaryOp} {e : Expr} : t.Proper → t.kind.unaryOp? = some op →
      e.Faithful → Expr.Faithful (.unary t op e)
  | binary {t : Token} {op : BinaryOp} {left right : Expr} : t.Proper →
      t.kind.binaryOp? = some op → left.Faithful → right.Faithful →
      Expr.Faithful (.binary t op left right)
  | cond {t : Token} {c : Expr} {b : Block} : t.Is .kwIf → c.Faithful → b.Faithful →
      Expr.Faithful (.cond t c b none)
  | condElse {t : Token} {c : Expr} {b b' : Block} : t.Is .kwIf → c.Faithful → b.Faithful →
      b'.Faithful → Expr.Faithful (.cond t c b (some b'))
  | function {t : Token} {ids : List Identifier} {b : Block} : t.Is .kwFunction →
      (∀ id ∈ ids, id.Faithful) → b.Faithful → Expr.Faithful (.function t ids b)
  | call {t : Token} {callee : Expr} {args : List Expr} : t.Is .lparen → callee.Faithful →
      (∀ e ∈ args, e.Faithful) → Expr.Faithful (.call t callee args)
  | array {t : Token} {es : List Expr} : t.Is .lbracket → (∀ e ∈ es, e.Faithful) →
      Expr.Faithful (.array t es)
  | index {t : Token} {base index : Expr} : t.Is .lbracket → base.Faithful → index.Faithful →
      Expr.Faithful (.index t base index)

/-- The statement agrees with its tokens. -/
inductive Stmt.Faithful : Stmt → Prop
  | bind {t : Token} {id : Identifier} {e : Expr} : t.Is .kwLet → id.Faithful → e.Faithful →
      Stmt.Faithful (.bind t id e)
  | ret {t : Token} {e : Expr} : t.Is .kwReturn → e.Faithful → Stmt.Faithful (.ret t e)
  | expr {t : Token} {e : Expr} : e.Faithful → Stmt.Faithful (.expr t e)

/-- The block agrees with its tokens. -/
inductive Block.Faithful : Block → Prop
  | mk {t : Token} {ss : List Stmt} : t.Is .lbrace → (∀ s ∈ ss, s.Faithful) →
      Block.Faithful (.mk t ss)

end

/-- The program agrees with its tokens. -/
def Program.Faithful (p : Program) : Prop :=
  ∀ s ∈ p.statements, s.Faithful

/-! ## Cursors before proper tokens -/

/-- All tokens before the cursor are proper. -/
structure Cursor.Proper (c : Cursor) : Prop where
  last : c.last.Proper
  ahead : ∀ t ∈ c.ahead, t.Proper

lemma Cursor.Proper.current {c : Cursor} (hc : c.Proper) : c.current.Proper := by
  obtain ⟨ahead, last, faults⟩ := c
  cases ahead with
  | nil => exact hc.last
  | cons t ahead => exact hc.ahead t List.mem_cons_self

lemma Cursor.Proper.is {c : Cursor} (hc : c.Proper) {kind : Kind} (h : c.current.kind = kind) :
    c.current.Is kind :=
  ⟨hc.current, h⟩

lemma Cursor.Proper.leads {c c' : Cursor} (hc : c.Proper) (h : c.Leads c') : c'.Proper :=
  ⟨h.last ▸ hc.last, fun t ht => hc.ahead t (h.ahead.subset ht)⟩

lemma Cursor.proper_ofString (text : String) : (Cursor.ofString text).Proper :=
  ⟨Scanner.proper_last_tokens _, fun _ => Scanner.proper_of_mem_tokens⟩

lemma Cursor.ended_ofString (text : String) : (Cursor.ofString text).Ended :=
  ⟨Scanner.kind_last_tokens _, fun _ => Scanner.kind_ne_eof_of_mem_tokens⟩

namespace Reader

variable {α β : Type} {c c' c'' : Cursor}

/-! ## Readings that succeed -/

/-- The reading from one cursor to another succeeds, with or without faults, and yields `a`. -/
def Yields (x : Reader α) (c : Cursor) (a : α) (c' : Cursor) : Prop :=
  x c = .ok a c'

lemma yields_pure {a a' : α} (h : Yields (pure a) c a' c') : a = a' ∧ c = c' :=
  EStateM.Result.ok.inj (h : EStateM.Result.ok a c = .ok a' c')

lemma yields_bind {x : Reader α} {f : α → Reader β} {b : β} (h : Yields (x >>= f) c b c'') :
    ∃ a c', Yields x c a c' ∧ Yields (f a) c' b c'' := by
  unfold Yields at h
  rcases hx : x c with ⟨a, c'⟩ | ⟨i, c'⟩
  · rw [bind_of_ok hx] at h
    exact ⟨a, c', hx, h⟩
  · rw [bind_of_error hx] at h
    cases h

lemma yields_get {f : Cursor → Reader β} {b : β} :
    Yields (get >>= f) c b c' = Yields (f c) c b c' := rfl

lemma yields_advance {u : Unit} (h : Yields advance c u c') : c.advance = c' :=
  (EStateM.Result.ok.inj (h : EStateM.Result.ok () c.advance = .ok u c')).2

lemma not_yields_abandon {fault : SyntaxFault} {a : α} : ¬ Yields (abandon fault) c a c' := by
  intro h
  rw [Yields, abandon_eq] at h
  cases h

lemma Yields.leads {x : Reader α} [Forward x] {a : α} (h : Yields x c a c') : c.Leads c' :=
  Forward.leads_of_ok h

lemma Yields.proper {x : Reader α} [Forward x] {a : α} (h : Yields x c a c') (hc : c.Proper) :
    c'.Proper :=
  hc.leads h.leads

lemma Yields.ended {x : Reader α} [Forward x] {a : α} (h : Yields x c a c') (hc : c.Ended) :
    c'.Ended :=
  hc.leads h.leads

lemma yields_expect {kind : Kind} {u : Unit} (h : Yields (expect kind) c u c') :
    c.peek.kind = kind ∧ c.advance = c' := by
  rw [expect, yields_get] at h
  dsimp only at h
  split at h
  · rename_i hk
    exact ⟨hk, yields_advance h⟩
  · exact absurd h not_yields_abandon

lemma kind_current_of_expect {kind : Kind} {u : Unit} (h : Yields (expect kind) c u c') :
    c'.current.kind = kind := by
  obtain ⟨hk, rfl⟩ := yields_expect h
  exact hk

/-! ## Lists -/

/-- Whatever is read from proper tokens has the property. -/
def Makes (x : Reader α) (P : α → Prop) : Prop :=
  ∀ {c c' : Cursor} {a : α}, c.Proper → Yields x c a c' → P a

lemma makes_moreItems {item : Reader α} [Forward item] {P : α → Prop} (hitem : Makes item P)
    (n : Nat) : Makes (moreItems item n) (∀ a ∈ ·, P a) := by
  induction n with
  | zero =>
    intro c c' as _ h
    obtain ⟨rfl, -⟩ := yields_pure h
    simp
  | succ n ih =>
    intro c c' as hc h
    rw [moreItems, yields_get] at h
    split at h
    · obtain ⟨_, c₁, hadvance, h⟩ := yields_bind h
      have hc₁ := hadvance.proper hc
      obtain ⟨a, c₂, ha, h⟩ := yields_bind h
      have hc₂ := ha.proper hc₁
      obtain ⟨rest, c₃, hrest, h⟩ := yields_bind h
      obtain ⟨rfl, -⟩ := yields_pure h
      exact List.forall_mem_cons.2 ⟨hitem hc₁ ha, ih hc₂ hrest⟩
    · obtain ⟨rfl, -⟩ := yields_pure h
      simp

lemma makes_items {item : Reader α} [Forward item] {P : α → Prop} (hitem : Makes item P)
    (close : Kind) : Makes (items item close) (∀ a ∈ ·, P a) := by
  intro c c' as hc h
  rw [items, yields_get] at h
  split at h
  · obtain ⟨_, c₁, -, h⟩ := yields_bind h
    obtain ⟨rfl, -⟩ := yields_pure h
    simp
  · obtain ⟨a, c₁, ha, h⟩ := yields_bind h
    have hc₁ := ha.proper hc
    rw [yields_get] at h
    obtain ⟨rest, c₂, hrest, h⟩ := yields_bind h
    obtain ⟨_, c₃, -, h⟩ := yields_bind h
    obtain ⟨rfl, -⟩ := yields_pure h
    exact List.forall_mem_cons.2 ⟨hitem hc ha, makes_moreItems hitem _ hc₁ hrest⟩

lemma makes_parameter : Makes parameter Identifier.Faithful := by
  intro c c' id hc h
  rw [parameter] at h
  obtain ⟨_, c₁, hexpect, h⟩ := yields_bind h
  have hc₁ := hexpect.proper hc
  rw [yields_get] at h
  obtain ⟨rfl, -⟩ := yields_pure h
  exact ⟨hc₁.is (kind_current_of_expect hexpect), rfl⟩

/-! ## Statements -/

section Pieces

variable {expression : Precedence → Reader Expr}
  (hexpr : ∀ context, Makes (expression context) Expr.Faithful)
include hexpr

lemma makes_operand : Makes (operand expression) Expr.Faithful := by
  intro c c' e hc h
  rw [operand] at h
  obtain ⟨_, c₁, hadvance, h⟩ := yields_bind h
  exact hexpr _ (hadvance.proper hc) h

lemma faithful_binding {s : Stmt} (hc : c.Proper) (hk : c.current.kind = .kwLet)
    (h : Yields (binding expression) c s c') : s.Faithful := by
  rw [binding, yields_get] at h
  obtain ⟨_, c₁, hident, h⟩ := yields_bind h
  have hc₁ := hident.proper hc
  rw [yields_get] at h
  obtain ⟨_, c₂, hassign, h⟩ := yields_bind h
  have hc₂ := hassign.proper hc₁
  obtain ⟨e, c₃, he, h⟩ := yields_bind h
  obtain ⟨_, c₄, -, h⟩ := yields_bind h
  obtain ⟨rfl, -⟩ := yields_pure h
  exact .bind (hc.is hk) ⟨hc₁.is (kind_current_of_expect hident), rfl⟩ (makes_operand hexpr hc₂ he)

lemma faithful_returning {s : Stmt} (hc : c.Proper) (hk : c.current.kind = .kwReturn)
    (h : Yields (returning expression) c s c') : s.Faithful := by
  rw [returning, yields_get] at h
  obtain ⟨e, c₁, he, h⟩ := yields_bind h
  obtain ⟨_, c₂, -, h⟩ := yields_bind h
  obtain ⟨rfl, -⟩ := yields_pure h
  exact .ret (hc.is hk) (makes_operand hexpr hc he)

lemma makes_expressionStatement : Makes (expressionStatement expression) Stmt.Faithful := by
  intro c c' s hc h
  rw [expressionStatement, yields_get] at h
  obtain ⟨e, c₁, he, h⟩ := yields_bind h
  have hfaithful : e.Faithful := hexpr _ hc he
  rw [yields_get] at h
  split at h
  · obtain ⟨_, c₂, -, h⟩ := yields_bind h
    obtain ⟨rfl, -⟩ := yields_pure h
    exact .expr hfaithful
  · obtain ⟨rfl, -⟩ := yields_pure h
    exact .expr hfaithful

lemma makes_statement : Makes (statement expression) Stmt.Faithful := by
  intro c c' s hc h
  rw [statement, yields_get] at h
  split at h
  · rename_i hk
    exact faithful_binding hexpr hc hk h
  · rename_i hk
    exact faithful_returning hexpr hc hk h
  · exact makes_expressionStatement hexpr hc h

/-- An abandoned statement is left out. -/
lemma makes_attempt_statement :
    Makes (attempt (statement expression)) (∀ s ∈ ·.toList, Stmt.Faithful s) := by
  intro c c' r hc h
  unfold Yields at h
  rcases hs : statement expression c with ⟨s, c₁⟩ | ⟨i, c₁⟩
  · -- the statement may have noted faults, but it was read to its end
    rw [attempt_of_ok hs] at h
    obtain ⟨rfl, -⟩ := EStateM.Result.ok.inj h
    simpa using makes_statement hexpr hc hs
  · rw [attempt_of_error hs] at h
    obtain ⟨rfl, -⟩ := EStateM.Result.ok.inj h
    simp

variable [∀ context, Forward (expression context)]

lemma makes_statementsUntil (stop : Kind → Bool) (n : Nat) :
    Makes (statementsUntil expression stop n) (∀ s ∈ ·, Stmt.Faithful s) := by
  induction n with
  | zero =>
    intro c c' ss _ h
    obtain ⟨rfl, -⟩ := yields_pure h
    simp
  | succ n ih =>
    intro c c' ss hc h
    rw [statementsUntil, yields_get] at h
    dsimp only at h
    split at h
    · obtain ⟨rfl, -⟩ := yields_pure h
      simp
    · obtain ⟨r, c₁, hr, h⟩ := yields_bind h
      have hc₁ := hr.proper hc
      obtain ⟨_, c₂, hadvance, h⟩ := yields_bind h
      have hc₂ := hadvance.proper hc₁
      obtain ⟨rest, c₃, hrest, h⟩ := yields_bind h
      obtain ⟨rfl, -⟩ := yields_pure h
      exact List.forall_mem_append.2 ⟨makes_attempt_statement hexpr hc hr, ih hc₂ hrest⟩

lemma faithful_block {b : Block} (hc : c.Proper) (hk : c.current.kind = .lbrace)
    (h : Yields (block expression) c b c') : b.Faithful := by
  rw [block, yields_get] at h
  obtain ⟨_, c₁, hadvance, h⟩ := yields_bind h
  have hc₁ := hadvance.proper hc
  rw [yields_get] at h
  obtain ⟨ss, c₂, hss, h⟩ := yields_bind h
  rw [yields_get] at h
  dsimp only at h
  split at h
  · exact absurd h not_yields_abandon
  · obtain ⟨rfl, -⟩ := yields_pure h
    exact .mk (hc.is hk) (makes_statementsUntil hexpr _ _ hc₁ hss)

/-! ## Expressions -/

omit hexpr [∀ context, Forward (expression context)] in
lemma faithful_integer {e : Expr} (hc : c.Proper) (hk : c.current.kind = .int)
    (h : Yields integer c e c') : e.Faithful := by
  rw [integer, yields_get] at h
  dsimp only at h
  split at h
  · rename_i value hvalue
    obtain ⟨rfl, -⟩ := yields_pure h
    exact .int (hc.is hk) (Number.ofInt?_eq_some_iff.1 hvalue)
  · exact absurd h not_yields_abandon

omit [∀ context, Forward (expression context)] in
lemma faithful_unary {op : UnaryOp} {e : Expr} (hc : c.Proper)
    (hk : c.current.kind.unaryOp? = some op) (h : Yields (unary expression op) c e c') :
    e.Faithful := by
  rw [unary, yields_get] at h
  obtain ⟨_, c₁, hadvance, h⟩ := yields_bind h
  obtain ⟨e', c₂, he, h⟩ := yields_bind h
  obtain ⟨rfl, -⟩ := yields_pure h
  exact .unary hc.current hk (hexpr _ (hadvance.proper hc) he)

omit [∀ context, Forward (expression context)] in
lemma makes_group : Makes (group expression) Expr.Faithful := by
  intro c c' e hc h
  rw [group] at h
  obtain ⟨e', c₁, he, h⟩ := yields_bind h
  obtain ⟨_, c₂, -, h⟩ := yields_bind h
  obtain ⟨rfl, -⟩ := yields_pure h
  exact makes_operand hexpr hc he

lemma faithful_conditional {e : Expr} (hc : c.Proper) (hk : c.current.kind = .kwIf)
    (h : Yields (conditional expression) c e c') : e.Faithful := by
  rw [conditional, yields_get] at h
  obtain ⟨_, c₁, hparen, h⟩ := yields_bind h
  have hc₁ := hparen.proper hc
  obtain ⟨condition, c₂, hcondition, h⟩ := yields_bind h
  have hc₂ := hcondition.proper hc₁
  obtain ⟨_, c₃, hclose, h⟩ := yields_bind h
  have hc₃ := hclose.proper hc₂
  obtain ⟨_, c₄, hbrace, h⟩ := yields_bind h
  have hc₄ := hbrace.proper hc₃
  obtain ⟨b, c₅, hb, h⟩ := yields_bind h
  have hc₅ := hb.proper hc₄
  have hfirst := makes_operand hexpr hc₁ hcondition
  have hthen := faithful_block hexpr hc₄ (kind_current_of_expect hbrace) hb
  rw [yields_get] at h
  split at h
  · obtain ⟨_, c₆, helse, h⟩ := yields_bind h
    have hc₆ := helse.proper hc₅
    obtain ⟨_, c₇, hbrace', h⟩ := yields_bind h
    have hc₇ := hbrace'.proper hc₆
    obtain ⟨b', c₈, hb', h⟩ := yields_bind h
    obtain ⟨rfl, -⟩ := yields_pure h
    exact .condElse (hc.is hk) hfirst hthen
      (faithful_block hexpr hc₇ (kind_current_of_expect hbrace') hb')
  · obtain ⟨rfl, -⟩ := yields_pure h
    exact .cond (hc.is hk) hfirst hthen

lemma faithful_function {e : Expr} (hc : c.Proper) (hk : c.current.kind = .kwFunction)
    (h : Yields (function expression) c e c') : e.Faithful := by
  rw [function, yields_get] at h
  obtain ⟨_, c₁, hparen, h⟩ := yields_bind h
  have hc₁ := hparen.proper hc
  obtain ⟨ids, c₂, hids, h⟩ := yields_bind h
  have hc₂ := hids.proper hc₁
  obtain ⟨_, c₃, hbrace, h⟩ := yields_bind h
  have hc₃ := hbrace.proper hc₂
  obtain ⟨b, c₄, hb, h⟩ := yields_bind h
  obtain ⟨rfl, -⟩ := yields_pure h
  exact .function (hc.is hk) (makes_items makes_parameter _ hc₁ hids)
    (faithful_block hexpr hc₃ (kind_current_of_expect hbrace) hb)

lemma faithful_array {e : Expr} (hc : c.Proper) (hk : c.current.kind = .lbracket)
    (h : Yields (array expression) c e c') : e.Faithful := by
  rw [array, yields_get] at h
  obtain ⟨es, c₁, hes, h⟩ := yields_bind h
  obtain ⟨rfl, -⟩ := yields_pure h
  exact .array (hc.is hk) (makes_items (makes_operand hexpr) _ hc hes)

lemma makes_leftEnd : Makes (leftEnd expression) Expr.Faithful := by
  intro c c' e hc h
  rw [leftEnd, yields_get] at h
  dsimp only at h
  split at h
  · rename_i hk
    obtain ⟨rfl, -⟩ := yields_pure h
    exact .ident ⟨hc.is hk, rfl⟩
  · rename_i hk
    exact faithful_integer hc hk h
  · rename_i hk
    obtain ⟨rfl, -⟩ := yields_pure h
    exact .str (hc.is hk)
  · rename_i hk
    obtain ⟨rfl, -⟩ := yields_pure h
    exact .true (hc.is hk)
  · rename_i hk
    obtain ⟨rfl, -⟩ := yields_pure h
    exact .false (hc.is hk)
  · rename_i hk
    exact faithful_unary hexpr hc (congrArg Kind.unaryOp? hk) h
  · rename_i hk
    exact faithful_unary hexpr hc (congrArg Kind.unaryOp? hk) h
  · exact makes_group hexpr hc h
  · rename_i hk
    exact faithful_conditional hexpr hc hk h
  · rename_i hk
    exact faithful_function hexpr hc hk h
  · rename_i hk
    exact faithful_array hexpr hc hk h
  · exact absurd h not_yields_abandon

lemma makes_continuation {left : Expr} (hleft : left.Faithful) :
    Makes (continuation expression left) Expr.Faithful := by
  intro c c' e hc h
  rw [continuation, yields_get] at h
  dsimp only at h
  split at h
  · rename_i hk
    obtain ⟨args, c₁, hargs, h⟩ := yields_bind h
    obtain ⟨rfl, -⟩ := yields_pure h
    exact .call (hc.is hk) hleft (makes_items (makes_operand hexpr) _ hc hargs)
  · rename_i hk
    obtain ⟨index, c₁, hindex, h⟩ := yields_bind h
    obtain ⟨_, c₂, -, h⟩ := yields_bind h
    obtain ⟨rfl, -⟩ := yields_pure h
    exact .index (hc.is hk) hleft (makes_operand hexpr hc hindex)
  · split at h
    · rename_i op hop
      obtain ⟨_, c₁, hadvance, h⟩ := yields_bind h
      obtain ⟨right, c₂, hright, h⟩ := yields_bind h
      obtain ⟨rfl, -⟩ := yields_pure h
      exact .binary hc.current hop hleft (hexpr _ (hadvance.proper hc) hright)
    · obtain ⟨rfl, -⟩ := yields_pure h
      exact hleft

lemma makes_continuations (context : Precedence) (n : Nat) {left : Expr} (hleft : left.Faithful) :
    Makes (continuations expression context n left) Expr.Faithful := by
  induction n generalizing left with
  | zero =>
    intro c c' e _ h
    obtain ⟨rfl, -⟩ := yields_pure h
    exact hleft
  | succ n ih =>
    intro c c' e hc h
    rw [continuations, yields_get] at h
    split at h
    · obtain ⟨_, c₁, hadvance, h⟩ := yields_bind h
      have hc₁ := hadvance.proper hc
      obtain ⟨left', c₂, hleft', h⟩ := yields_bind h
      exact ih (makes_continuation hexpr hleft hc₁ hleft') (hleft'.proper hc₁) h
    · obtain ⟨rfl, -⟩ := yields_pure h
      exact hleft

end Pieces

lemma makes_expressionWithin (n : Nat) (context : Precedence) :
    Makes (expressionWithin n context) Expr.Faithful := by
  induction n generalizing context with
  | zero =>
    intro c c' e _ h
    exact absurd h not_yields_abandon
  | succ n ih =>
    intro c c' e hc h
    rw [expressionWithin] at h
    obtain ⟨left, c₁, hleft, h⟩ := yields_bind h
    have hc₁ := hleft.proper hc
    rw [yields_get] at h
    exact makes_continuations ih context _ (makes_leftEnd ih hc hleft) hc₁ h

lemma makes_program : Makes program Program.Faithful := by
  intro c c' p hc h
  rw [program, yields_get] at h
  obtain ⟨ss, c₁, hss, h⟩ := yields_bind h
  obtain ⟨rfl, -⟩ := yields_pure h
  exact makes_statementsUntil (makes_expressionWithin _) _ _ hc hss

end Reader

/-- What is read from a text, with or without faults, agrees with its tokens. -/
lemma Program.faithful_read (text : String) : (Program.read text).1.Faithful := by
  rcases h : Reader.program (Cursor.ofString text) with ⟨p, c⟩ | ⟨i, c⟩
  · rw [Program.read, Cursor.program, h]
    exact Reader.makes_program (Cursor.proper_ofString text) h
  · rw [Program.read, Cursor.program, h]
    intro s hs
    cases hs

end Bhasha
