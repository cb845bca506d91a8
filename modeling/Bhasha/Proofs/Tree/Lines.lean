import Bhasha.Proofs.Token.Appending
import Bhasha.Proofs.Tree.Reading
import Bhasha.Proofs.Tree.Relabelling

/-!
Reading does not look at lines.

The parser writes the lines of tokens down, in trees and in faults, and never asks for them. So if
all tokens stand on later lines, it does the same and writes later lines down. `Reader.Shifts` says
so of two readings; in the parser they are one and the same reading, but where it has looked at
the cursor its next step depends on the tokens, and then there are two.
-/

namespace Bhasha

/-- All tokens of a tree on lines that are later by `n`. -/
def Relabelling.later (n : Nat) : Relabelling where
  token := Token.later n
  name name := name
  line line := line + n
  line_token _ := rfl

/-- The fault on a line that is later by `n`. -/
def SyntaxFault.later (n : Nat) : SyntaxFault → SyntaxFault
  | unexpectedToken expected found line => unexpectedToken expected found (line + n)
  | noExpression kind line => noExpression kind (line + n)
  | invalidInteger literal line => invalidInteger literal (line + n)

namespace Cursor

/-- The cursor among tokens and faults on lines that are later by `n`. -/
def later (n : Nat) (c : Cursor) : Cursor :=
  ⟨c.ahead.map (Token.later n), c.last.later n, c.faults.map (SyntaxFault.later n)⟩

variable (n : Nat) (c : Cursor)

lemma current_later : (c.later n).current = c.current.later n := by
  obtain ⟨_ | ⟨t, ahead⟩, last, faults⟩ := c <;> rfl

lemma peek_later : (c.later n).peek = c.peek.later n := by
  obtain ⟨_ | ⟨t, _ | ⟨t', ahead⟩⟩, last, faults⟩ := c <;> rfl

lemma length_ahead_later : (c.later n).ahead.length = c.ahead.length :=
  List.length_map _

lemma advance_later : (c.later n).advance = c.advance.later n := by
  obtain ⟨_ | ⟨t, ahead⟩, last, faults⟩ := c <;> rfl

lemma note_later (fault : SyntaxFault) :
    (c.later n).note (fault.later n) = (c.note fault).later n := by
  unfold note later
  rw [Array.map_push]

end Cursor

namespace Reader

variable {α β : Type} {n : Nat}

/-- The second reading does among later lines what the first one does, and what it yields is that
of the first as `g` makes it. -/
def Shifts (n : Nat) (g : α → α) (x y : Reader α) : Prop :=
  ∀ c, y (c.later n) =
    match x c with
    | .ok a c' => .ok (g a) (c'.later n)
    | .error i c' => .error i (c'.later n)

section Steps

variable {g : α → α} {h : β → β} {x x' y y' : Reader α}

lemma shifts_pure (a : α) : Shifts n g (pure a) (pure (g a)) := fun _ => rfl

lemma shifts_get {f f' : Cursor → Reader α} (hf : ∀ c, Shifts n g (f c) (f' (c.later n))) :
    Shifts n g (get >>= f) (get >>= f') := fun c => hf c c

lemma Shifts.bind {f f' : α → Reader β} (hx : Shifts n g x y)
    (hf : ∀ a, Shifts n h (f a) (f' (g a))) : Shifts n h (x >>= f) (y >>= f') := by
  intro c
  have hc := hx c
  rcases hread : x c with ⟨a, c'⟩ | ⟨i, c'⟩
  · rw [hread] at hc
    rw [bind_of_ok hc, bind_of_ok hread]
    exact hf a c'
  · rw [hread] at hc
    rw [bind_of_error hc, bind_of_error hread]

lemma shifts_ite {p p' : Prop} [Decidable p] [Decidable p'] (hp : p ↔ p') (hx : Shifts n g x y)
    (hx' : Shifts n g x' y') : Shifts n g (if p then x else x') (if p' then y else y') := by
  by_cases h : p
  · rw [if_pos h, if_pos (hp.1 h)]
    exact hx
  · rw [if_neg h, if_neg (mt hp.2 h)]
    exact hx'

lemma Shifts.attempt (hx : Shifts n g x y) :
    Shifts n (Option.map g) (attempt x) (attempt y) := by
  intro c
  have hc := hx c
  rcases hread : x c with ⟨a, c'⟩ | ⟨i, c'⟩
  · rw [hread] at hc
    rw [attempt_of_ok hc, attempt_of_ok hread]
    rfl
  · rw [hread] at hc
    rw [attempt_of_error hc, attempt_of_error hread]
    rfl

lemma shifts_advance : Shifts n id advance advance := by
  intro c
  show EStateM.Result.ok () (c.later n).advance = .ok () (c.advance.later n)
  rw [c.advance_later n]

lemma shifts_note (fault : SyntaxFault) : Shifts n id (note fault) (note (fault.later n)) := by
  intro c
  show EStateM.Result.ok () ((c.later n).note (fault.later n)) = .ok () ((c.note fault).later n)
  rw [c.note_later n]

lemma shifts_abandon (fault : SyntaxFault) :
    Shifts n g (abandon fault) (abandon (fault.later n)) := by
  intro c
  rw [abandon_eq, abandon_eq, c.note_later n]

lemma shifts_expect (kind : Kind) : Shifts n id (expect kind) (expect kind) := by
  unfold expect
  refine shifts_get fun c => ?_
  rw [c.peek_later n]
  exact shifts_ite Iff.rfl shifts_advance (shifts_abandon _)

end Steps

/-! ## Lists -/

section Lists

variable {g : α → α} {item : Reader α} (hitem : Shifts n g item item)
include hitem

lemma shifts_moreItems (k : Nat) :
    Shifts n (List.map g) (moreItems item k) (moreItems item k) := by
  induction k with
  | zero => exact shifts_pure []
  | succ k ih =>
    unfold moreItems
    refine shifts_get fun c => ?_
    rw [c.peek_later n]
    refine shifts_ite Iff.rfl ?_ (shifts_pure [])
    refine shifts_advance.bind fun _ => hitem.bind fun a => ih.bind fun rest => ?_
    exact shifts_pure (a :: rest)

lemma shifts_items (close : Kind) :
    Shifts n (List.map g) (items item close) (items item close) := by
  unfold items
  refine shifts_get fun c => ?_
  rw [c.peek_later n]
  refine shifts_ite Iff.rfl (shifts_advance.bind fun _ => shifts_pure []) ?_
  refine hitem.bind fun a => shifts_get fun c => ?_
  rw [c.length_ahead_later n]
  refine (shifts_moreItems hitem _).bind fun rest => ?_
  exact (shifts_expect close).bind fun _ => shifts_pure (a :: rest)

end Lists

lemma shifts_parameter :
    Shifts n (Identifier.relabel (.later n)) parameter parameter := by
  unfold parameter
  refine (shifts_expect .ident).bind fun _ => shifts_get fun c => ?_
  rw [c.current_later n]
  exact shifts_pure _

lemma shifts_parameters :
    Shifts n (List.map (Identifier.relabel (.later n))) parameters parameters :=
  shifts_items shifts_parameter .rparen

/-! ## Statements -/

lemma shifts_statementEnd : Shifts n id statementEnd statementEnd := by
  unfold statementEnd
  refine shifts_get fun c => ?_
  rw [c.peek_later n]
  obtain ⟨kind, literal, line⟩ := c.peek
  cases kind
  case semicolon => exact shifts_advance
  case rbrace | eof => exact shifts_pure ()
  all_goals exact shifts_note _

lemma shifts_noExpression : Shifts n (Expr.relabel (.later n)) noExpression noExpression := by
  unfold noExpression
  refine shifts_get fun c => ?_
  rw [c.current_later n]
  exact shifts_abandon _

lemma shifts_integer : Shifts n (Expr.relabel (.later n)) integer integer := by
  unfold integer
  refine shifts_get fun c => ?_
  rw [c.current_later n]
  have hliteral : (c.current.later n).literal = c.current.literal := rfl
  simp only [hliteral]
  cases Number.ofDigits? c.current.literal with
  | none => exact shifts_abandon (.invalidInteger c.current.literal c.current.line)
  | some value => exact shifts_pure (Expr.int c.current value)

section Pieces

variable {E : Precedence → Reader Expr}
  (hexpr : ∀ context, Shifts n (Expr.relabel (.later n)) (E context) (E context))
include hexpr

lemma shifts_operand : Shifts n (Expr.relabel (.later n)) (operand E) (operand E) := by
  unfold operand
  exact shifts_advance.bind fun _ => hexpr .lowest

lemma shifts_binding : Shifts n (Stmt.relabel (.later n)) (binding E) (binding E) := by
  unfold binding
  refine shifts_get fun c => (shifts_expect .ident).bind fun _ => shifts_get fun c' => ?_
  rw [c.current_later n, c'.current_later n]
  refine (shifts_expect .assign).bind fun _ => (shifts_operand hexpr).bind fun value => ?_
  exact shifts_statementEnd.bind fun _ =>
    shifts_pure (Stmt.bind c.current ⟨c'.current, c'.current.literal⟩ value)

lemma shifts_returning : Shifts n (Stmt.relabel (.later n)) (returning E) (returning E) := by
  unfold returning
  refine shifts_get fun c => ?_
  rw [c.current_later n]
  refine (shifts_operand hexpr).bind fun value => ?_
  exact shifts_statementEnd.bind fun _ => shifts_pure (Stmt.ret c.current value)

lemma shifts_expressionStatement :
    Shifts n (Stmt.relabel (.later n)) (expressionStatement E) (expressionStatement E) := by
  unfold expressionStatement
  refine shifts_get fun c => (hexpr .lowest).bind fun value => shifts_get fun c' => ?_
  rw [c.current_later n, c'.peek_later n]
  refine shifts_ite Iff.rfl (shifts_advance.bind fun _ => ?_) ?_
  · exact shifts_pure (Stmt.expr c.current value)
  · exact shifts_pure (Stmt.expr c.current value)

lemma shifts_statement : Shifts n (Stmt.relabel (.later n)) (statement E) (statement E) := by
  unfold statement
  refine shifts_get fun c => ?_
  rw [c.current_later n]
  obtain ⟨kind, literal, line⟩ := c.current
  cases kind
  case kwLet => exact shifts_binding hexpr
  case kwReturn => exact shifts_returning hexpr
  all_goals exact shifts_expressionStatement hexpr

lemma shifts_statementsUntil (stop : Kind → Bool) (k : Nat) :
    Shifts n (List.map (Stmt.relabel (.later n))) (statementsUntil E stop k)
      (statementsUntil E stop k) := by
  induction k with
  | zero => exact shifts_pure []
  | succ k ih =>
    unfold statementsUntil
    refine shifts_get fun c => ?_
    rw [c.current_later n]
    refine shifts_ite Iff.rfl (shifts_pure []) ?_
    refine (shifts_statement hexpr).attempt.bind fun s? => shifts_advance.bind fun _ => ?_
    refine ih.bind fun rest => ?_
    have hmap : (s?.map (Stmt.relabel (.later n))).toList ++ rest.map (Stmt.relabel (.later n)) =
        (s?.toList ++ rest).map (Stmt.relabel (.later n)) := by
      cases s? <;> rfl
    rw [hmap]
    exact shifts_pure _

lemma shifts_block : Shifts n (Block.relabel (.later n)) (block E) (block E) := by
  unfold block
  refine shifts_get fun c => shifts_advance.bind fun _ => shifts_get fun c₁ => ?_
  rw [c.current_later n, c₁.length_ahead_later n]
  refine (shifts_statementsUntil hexpr _ _).bind fun ss => shifts_get fun c₂ => ?_
  rw [c₂.current_later n]
  refine shifts_ite Iff.rfl (shifts_abandon _) ?_
  have hblock : (Block.mk c.current ss).relabel (.later n) =
      .mk (c.current.later n) (ss.map (Stmt.relabel (.later n))) := by
    rw [Block.relabel, Stmt.relabelAll_eq_map]
    rfl
  rw [← hblock]
  exact shifts_pure _

/-! ## Expressions -/

lemma shifts_unary (op : UnaryOp) :
    Shifts n (Expr.relabel (.later n)) (unary E op) (unary E op) := by
  unfold unary
  refine shifts_get fun c => shifts_advance.bind fun _ => (hexpr .unary).bind fun value => ?_
  rw [c.current_later n]
  exact shifts_pure (Expr.unary c.current op value)

lemma shifts_group : Shifts n (Expr.relabel (.later n)) (group E) (group E) := by
  unfold group
  refine (shifts_operand hexpr).bind fun value => ?_
  exact (shifts_expect .rparen).bind fun _ => shifts_pure value

lemma shifts_conditional : Shifts n (Expr.relabel (.later n)) (conditional E) (conditional E) := by
  unfold conditional
  refine shifts_get fun c => (shifts_expect .lparen).bind fun _ => ?_
  rw [c.current_later n]
  refine (shifts_operand hexpr).bind fun condition => (shifts_expect .rparen).bind fun _ => ?_
  refine (shifts_expect .lbrace).bind fun _ => (shifts_block hexpr).bind fun consequence => ?_
  refine shifts_get fun c' => ?_
  rw [c'.peek_later n]
  refine shifts_ite Iff.rfl (shifts_advance.bind fun _ => ?_) ?_
  · refine (shifts_expect .lbrace).bind fun _ => (shifts_block hexpr).bind fun alternative => ?_
    exact shifts_pure (Expr.cond c.current condition consequence (some alternative))
  · exact shifts_pure (Expr.cond c.current condition consequence none)

lemma shifts_function : Shifts n (Expr.relabel (.later n)) (function E) (function E) := by
  unfold function
  refine shifts_get fun c => (shifts_expect .lparen).bind fun _ => ?_
  rw [c.current_later n]
  refine shifts_parameters.bind fun params => (shifts_expect .lbrace).bind fun _ => ?_
  exact (shifts_block hexpr).bind fun body => shifts_pure (Expr.function c.current params body)

lemma shifts_array : Shifts n (Expr.relabel (.later n)) (array E) (array E) := by
  unfold array
  refine shifts_get fun c => ?_
  rw [c.current_later n]
  refine (shifts_items (shifts_operand hexpr) .rbracket).bind fun es => ?_
  rw [← Expr.relabelAll_eq_map]
  exact shifts_pure (Expr.array c.current es)

lemma shifts_leftEnd : Shifts n (Expr.relabel (.later n)) (leftEnd E) (leftEnd E) := by
  unfold leftEnd
  refine shifts_get fun c => ?_
  rw [c.current_later n]
  generalize c.current = token
  obtain ⟨kind, literal, line⟩ := token
  cases kind
  case ident => exact shifts_pure (Expr.ident ⟨⟨.ident, literal, line⟩, literal⟩)
  case int => exact shifts_integer
  case str => exact shifts_pure (Expr.str ⟨.str, literal, line⟩ literal)
  case kwTrue => exact shifts_pure (Expr.bool ⟨.kwTrue, literal, line⟩ true)
  case kwFalse => exact shifts_pure (Expr.bool ⟨.kwFalse, literal, line⟩ false)
  case bang => exact shifts_unary hexpr .not
  case minus => exact shifts_unary hexpr .neg
  case lparen => exact shifts_group hexpr
  case kwIf => exact shifts_conditional hexpr
  case kwFunction => exact shifts_function hexpr
  case lbracket => exact shifts_array hexpr
  all_goals exact shifts_noExpression

lemma shifts_continuation (left : Expr) :
    Shifts n (Expr.relabel (.later n)) (continuation E left)
      (continuation E (left.relabel (.later n))) := by
  unfold continuation
  refine shifts_get fun c => ?_
  rw [c.current_later n]
  generalize c.current = token
  obtain ⟨kind, literal, line⟩ := token
  cases kind
  case lparen =>
    refine (shifts_items (shifts_operand hexpr) .rparen).bind fun args => ?_
    rw [← Expr.relabelAll_eq_map]
    exact shifts_pure (Expr.call ⟨.lparen, literal, line⟩ left args)
  case lbracket =>
    refine (shifts_operand hexpr).bind fun index => ?_
    exact (shifts_expect .rbracket).bind fun _ => shifts_pure (Expr.index _ left index)
  case plus | minus | asterisk | slash | lt | gt | eq | notEq =>
    exact shifts_advance.bind fun _ => (hexpr _).bind fun right =>
      shifts_pure (Expr.binary _ _ left right)
  all_goals exact shifts_pure left

lemma shifts_continuations (context : Precedence) (k : Nat) (left : Expr) :
    Shifts n (Expr.relabel (.later n)) (continuations E context k left)
      (continuations E context k (left.relabel (.later n))) := by
  induction k generalizing left with
  | zero => exact shifts_pure left
  | succ k ih =>
    unfold continuations
    refine shifts_get fun c => ?_
    rw [c.peek_later n]
    refine shifts_ite Iff.rfl ?_ (shifts_pure left)
    exact shifts_advance.bind fun _ => (shifts_continuation hexpr left).bind fun left' => ih left'

end Pieces

lemma shifts_expressionWithin (k : Nat) (context : Precedence) :
    Shifts n (Expr.relabel (.later n)) (expressionWithin k context)
      (expressionWithin k context) := by
  induction k generalizing context with
  | zero => exact shifts_noExpression
  | succ k ih =>
    unfold expressionWithin
    refine (shifts_leftEnd ih).bind fun left => shifts_get fun c => ?_
    rw [c.length_ahead_later n]
    exact shifts_continuations ih context _ left

/-- A program whose tokens stand on later lines is read as the same program on later lines. -/
lemma shifts_program : Shifts n (Program.relabel (.later n)) program program := by
  unfold program
  refine shifts_get fun c => ?_
  rw [c.length_ahead_later n]
  refine (shifts_statementsUntil (shifts_expressionWithin _) _ _).bind fun ss => ?_
  rw [← Stmt.relabelAll_eq_map]
  exact shifts_pure (Program.mk ss)

end Reader

end Bhasha
