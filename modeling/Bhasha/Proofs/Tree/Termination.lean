import Bhasha.Proofs.Tree.Faithful
import Bhasha.Proofs.Tree.Unbounded

/-!
Reading ends.

The parser without bounds stops from every place of every text, and it comes to what the parser
comes to. An expression is read from its parts, and each of them starts behind a token of the
expression itself, so there are fewer tokens ahead of it (`Cursor.Within`); a loop that goes round
again has passed a token as well. At the end of the text, where a cursor moves no further, no
expression starts and no loop goes on. So the bounds of the parser are never what ends a reading.
-/

namespace Bhasha

namespace Unbounded

variable {α β : Type}

/-! ## Agreement -/

/-- From the cursor the one reading stops, and it comes to what the other comes to. -/
def Agrees (x : Unbounded α) (y : Reader α) (c : Cursor) : Prop :=
  x.outcomes c = {y.outcome c}

/-- From the cursor the one reading stops with a result, and so does the other. -/
def Stops (x : Unbounded α) (y : Reader α) (c : Cursor) : Prop :=
  ∃ a c', x.outcomes c = {(some a, c')} ∧ y c = .ok a c'

section Steps

variable {c c' : Cursor} {x x' : Unbounded α} {y y' : Reader α} {f : α → Unbounded β}
  {g : α → Reader β}

lemma agrees_lift (y : Reader α) (c : Cursor) : Agrees (lift y) y c := outcomes_lift y c

lemma agrees_pure (a : α) (c : Cursor) : Agrees (pure a) (pure a) c := outcomes_pure a c

lemma agrees_call {piece : Piece α} (h : Agrees (body piece) y c) : Agrees (call piece) y c :=
  (outcomes_call piece c).trans h

lemma agrees_get_left {f : Cursor → Unbounded α} (h : Agrees (f c) y c) :
    Agrees (get >>= f) y c :=
  (outcomes_bind_of_some (outcomes_get c)).trans h

lemma agrees_get_right {g : Cursor → Reader α} (h : Agrees x (g c) c) :
    Agrees x (get >>= g) c := h

lemma agrees_get {f : Cursor → Unbounded β} {g : Cursor → Reader β} (h : Agrees (f c) (g c) c) :
    Agrees (get >>= f) (get >>= g) c :=
  agrees_get_left h

lemma agrees_ite {p : Prop} [Decidable p] (h : p → Agrees x y c) (h' : ¬ p → Agrees x' y' c) :
    Agrees (if p then x else x') (if p then y else y') c := by
  by_cases hp : p
  · rw [if_pos hp, if_pos hp]
    exact h hp
  · rw [if_neg hp, if_neg hp]
    exact h' hp

lemma agrees_advance {f : Unit → Unbounded β} {g : Unit → Reader β}
    (h : Agrees (f ()) (g ()) c.advance) :
    Agrees (lift Reader.advance >>= f) (Reader.advance >>= g) c :=
  (outcomes_bind_of_some (outcomes_advance c)).trans h

/-- Step by step; each step starts from a cursor that the one before has led to. -/
lemma Agrees.bind [Reader.Forward y] (hx : Agrees x y c)
    (hf : ∀ a c', c.Leads c' → Agrees (f a) (g a) c') : Agrees (x >>= f) (y >>= g) c := by
  unfold Agrees Reader.outcome at hx ⊢
  rcases hy : y c with ⟨a, c'⟩ | ⟨i, c'⟩
  · rw [hy] at hx
    rw [outcomes_bind_of_some hx, Reader.bind_of_ok hy]
    exact hf a c' (Reader.Forward.leads_of_ok hy)
  · rw [hy] at hx
    rw [outcomes_bind_of_none hx, Reader.bind_of_error hy]

/-- What was abandoned is given as no result. -/
lemma Agrees.attempt (hx : Agrees x y c) : Stops (attempt x) (Reader.attempt y) c := by
  unfold Agrees Reader.outcome at hx
  rcases hy : y c with ⟨a, c'⟩ | ⟨i, c'⟩
  · rw [hy] at hx
    exact ⟨some a, c', outcomes_attempt hx, Reader.attempt_of_ok hy⟩
  · rw [hy] at hx
    exact ⟨none, c', outcomes_attempt hx, Reader.attempt_of_error hy⟩

lemma stops_pure (a : α) (c : Cursor) : Stops (pure a) (pure a) c :=
  ⟨a, c, outcomes_pure a c, rfl⟩

lemma stops_call {piece : Piece α} (h : Stops (body piece) y c) : Stops (call piece) y c := by
  obtain ⟨a, c', hstop, hy⟩ := h
  exact ⟨a, c', (outcomes_call piece c).trans hstop, hy⟩

lemma stops_get_left {f : Cursor → Unbounded α} (h : Stops (f c) y c) :
    Stops (get >>= f) y c := by
  obtain ⟨a, c', hstop, hy⟩ := h
  exact ⟨a, c', (outcomes_bind_of_some (outcomes_get c)).trans hstop, hy⟩

lemma stops_get {f : Cursor → Unbounded α} {g : Cursor → Reader α} (h : Stops (f c) (g c) c) :
    Stops (get >>= f) (get >>= g) c :=
  stops_get_left h

lemma stops_ite {p : Prop} [Decidable p] (h : p → Stops x y c) (h' : ¬ p → Stops x' y' c) :
    Stops (if p then x else x') (if p then y else y') c := by
  by_cases hp : p
  · rw [if_pos hp, if_pos hp]
    exact h hp
  · rw [if_neg hp, if_neg hp]
    exact h' hp

lemma stops_advance {f : Unit → Unbounded β} {g : Unit → Reader β}
    (h : Stops (f ()) (g ()) c.advance) :
    Stops (lift Reader.advance >>= f) (Reader.advance >>= g) c := by
  obtain ⟨a, c', hstop, hy⟩ := h
  exact ⟨a, c', (outcomes_bind_of_some (outcomes_advance c)).trans hstop, hy⟩

lemma Stops.bind [Reader.Forward y] (hx : Stops x y c)
    (hf : ∀ a c', c.Leads c' → Stops (f a) (g a) c') : Stops (x >>= f) (y >>= g) c := by
  obtain ⟨a, c', hstop, hy⟩ := hx
  obtain ⟨b, c'', hstop', hg⟩ := hf a c' (Reader.Forward.leads_of_ok hy)
  refine ⟨b, c'', ?_, ?_⟩
  · rw [outcomes_bind_of_some hstop, hstop']
  · rw [Reader.bind_of_ok hy, hg]

lemma Stops.agrees (hx : Stops x y c) : Agrees x y c := by
  obtain ⟨a, c', hstop, hy⟩ := hx
  unfold Agrees Reader.outcome
  rw [hy, hstop]

end Steps

end Unbounded

/-! ## Cursors before few tokens -/

/-- No more than `n` tokens are ahead, and behind them is the end of the text. -/
structure Cursor.Within (n : Nat) (c : Cursor) : Prop where
  last : c.last.kind = .eof
  length : c.ahead.length ≤ n

namespace Cursor.Within

variable {n : Nat} {c c' : Cursor}

lemma leads (hc : c.Within n) (h : c.Leads c') : c'.Within n :=
  ⟨h.last ▸ hc.last, h.ahead.length_le.trans hc.length⟩

/-- The token that is passed is one less. -/
lemma advance (hc : c.Within (n + 1)) : c.advance.Within n := by
  refine ⟨hc.last, ?_⟩
  have hlen := hc.length
  show c.ahead.tail.length ≤ n
  rw [List.length_tail]
  omega

lemma succ (hc : c.Within n) : c.Within (n + 1) :=
  ⟨hc.last, Nat.le_succ_of_le hc.length⟩

lemma ahead_eq_nil (hc : c.Within 0) : c.ahead = [] :=
  List.length_eq_zero_iff.1 (Nat.le_zero.1 hc.length)

lemma kind_current (hc : c.Within 0) : c.current.kind = .eof := by
  rw [current, hc.ahead_eq_nil]
  exact hc.last

lemma kind_peek (hc : c.Within 0) : c.peek.kind = .eof := by
  rw [peek, hc.ahead_eq_nil]
  exact hc.last

end Cursor.Within

namespace Unbounded

open Reader (Forward expressionWithin)

variable {α : Type} {c : Cursor} {n k : Nat}

/-! ## Lists -/

section Lists

variable {item : Unbounded α} {item' : Reader α} [Forward item'] {more : Unbounded (List α)}

/-- The rest of a list goes on only behind a comma, and at the end of the text there is none. -/
lemma agrees_moreItems (hmore : ∀ c, more.outcomes c = (moreItems item more).outcomes c)
    (hitem : ∀ {c : Cursor}, c.Within n → Agrees item item' c) (hc : c.Within n)
    (hk : c.Within k) : Agrees more (Reader.moreItems item' k) c := by
  induction k generalizing c with
  | zero =>
    have hcomma : ¬ c.peek.kind = .comma := by
      rw [hk.kind_peek]
      decide
    refine (hmore c).trans (agrees_get_left ?_)
    rw [if_neg hcomma]
    exact agrees_pure _ _
  | succ k ih =>
    rw [Reader.moreItems]
    refine (hmore c).trans (agrees_get (agrees_ite (fun _ => agrees_advance ?_) fun _ =>
      agrees_pure _ _))
    have hc' : c.advance.Within n := hc.leads (Cursor.leads_advance c)
    refine (hitem hc').bind fun a c₁ hleads => ?_
    exact (ih (hc'.leads hleads) (hk.advance.leads hleads)).bind fun _ _ _ => agrees_pure _ _

lemma agrees_items (hmore : ∀ c, more.outcomes c = (moreItems item more).outcomes c)
    (hitem : ∀ {c : Cursor}, c.Within n → Agrees item item' c) (close : Kind) (hc : c.Within n) :
    Agrees (items item more close) (Reader.items item' close) c := by
  rw [items, Reader.items]
  refine agrees_get (agrees_ite (fun _ => agrees_advance (agrees_pure _ _)) fun _ => ?_)
  refine (hitem hc).bind fun a c₁ hleads => agrees_get_right ?_
  have hc₁ := hc.leads hleads
  refine (agrees_moreItems hmore hitem hc₁ ⟨hc₁.last, Nat.le_refl _⟩).bind fun rest c₂ _ => ?_
  exact (agrees_lift _ _).bind fun _ _ _ => agrees_pure _ _

end Lists

lemma agrees_parameters (hc : c.Within n) : Agrees parameters Reader.parameters c :=
  agrees_items (outcomes_call _) (fun _ => agrees_lift _ _) _ hc

/-! ## Statements -/

section Pieces

variable {E : Precedence → Reader Expr} [∀ context, Forward (E context)]
  (hexpr : ∀ {c : Cursor}, c.Within n → ∀ context, Agrees (expression context) (E context) c)
include hexpr

omit [∀ context, Forward (E context)] in
lemma agrees_operand (hc : c.Within (n + 1)) : Agrees operand (Reader.operand E) c := by
  rw [operand, Reader.operand]
  exact agrees_advance (hexpr hc.advance _)

lemma agrees_expressions (close : Kind) (hc : c.Within (n + 1)) :
    Agrees (expressions close) (Reader.items (Reader.operand E) close) c :=
  agrees_items (outcomes_call _) (agrees_operand hexpr) close hc

lemma agrees_binding (hc : c.Within (n + 1)) : Agrees binding (Reader.binding E) c := by
  rw [binding, Reader.binding]
  refine agrees_get ((agrees_lift _ _).bind fun _ c₁ h₁ => ?_)
  refine agrees_get ((agrees_lift _ _).bind fun _ c₂ h₂ => ?_)
  refine (agrees_operand hexpr (hc.leads (h₁.trans h₂))).bind fun value c₃ _ => ?_
  exact (agrees_lift _ _).bind fun _ _ _ => agrees_pure _ _

lemma agrees_returning (hc : c.Within (n + 1)) : Agrees returning (Reader.returning E) c := by
  rw [returning, Reader.returning]
  refine agrees_get ((agrees_operand hexpr hc).bind fun value c₁ _ => ?_)
  exact (agrees_lift _ _).bind fun _ _ _ => agrees_pure _ _

lemma agrees_expressionStatement (hc : c.Within n) :
    Agrees expressionStatement (Reader.expressionStatement E) c := by
  rw [expressionStatement, Reader.expressionStatement]
  refine agrees_get ((hexpr hc _).bind fun value c₁ _ => agrees_get ?_)
  exact agrees_ite (fun _ => agrees_advance (agrees_pure _ _)) fun _ => agrees_pure _ _

lemma agrees_statement (hc : c.Within n) : Agrees statement (Reader.statement E) c := by
  rw [statement, Reader.statement]
  refine agrees_get ?_
  generalize c.current.kind = kind
  cases kind
  case kwLet => exact agrees_binding hexpr hc.succ
  case kwReturn => exact agrees_returning hexpr hc.succ
  all_goals exact agrees_expressionStatement hexpr hc

/-- A loop over statements passes a token each time it goes round, and it stops at the end of the
text. -/
lemma stops_statementsUntil (stop : Kind → Bool) (hc : c.Within n) (hk : c.Within k) :
    Stops (statementsUntil stop) (Reader.statementsUntil E stop k) c := by
  induction k generalizing c with
  | zero =>
    have hstop : (stop c.current.kind || c.current.kind == .eof) = true := by
      rw [hk.kind_current]
      simp
    refine stops_call (stops_get_left ?_)
    dsimp only
    rw [if_pos hstop]
    exact stops_pure _ _
  | succ k ih =>
    rw [Reader.statementsUntil]
    refine stops_call (stops_get (stops_ite (fun _ => stops_pure _ _) fun _ => ?_))
    refine (agrees_statement hexpr hc).attempt.bind fun statement? c₁ h₁ => stops_advance ?_
    have hc₁ := hc.leads (h₁.trans c₁.leads_advance)
    exact (ih hc₁ (hk.leads h₁).advance).bind fun _ _ _ => stops_pure _ _

lemma agrees_block (hc : c.Within (n + 1)) : Agrees block (Reader.block E) c := by
  rw [block, Reader.block]
  refine agrees_get (agrees_advance (agrees_get_right ?_))
  have hstops := stops_statementsUntil hexpr (· == .rbrace) hc.advance ⟨hc.last, Nat.le_refl _⟩
  refine hstops.agrees.bind fun statements c₁ _ => agrees_get ?_
  exact agrees_ite (fun _ => agrees_lift _ _) fun _ => agrees_pure _ _

/-! ## Expressions -/

lemma agrees_unary (op : UnaryOp) (hc : c.Within (n + 1)) :
    Agrees (unary op) (Reader.unary E op) c := by
  rw [unary, Reader.unary]
  refine agrees_get (agrees_advance ?_)
  exact (hexpr hc.advance _).bind fun _ _ _ => agrees_pure _ _

lemma agrees_group (hc : c.Within (n + 1)) : Agrees group (Reader.group E) c := by
  rw [group, Reader.group]
  refine (agrees_operand hexpr hc).bind fun value c₁ _ => ?_
  exact (agrees_lift _ _).bind fun _ _ _ => agrees_pure _ _

set_option synthInstance.maxSize 512 in
lemma agrees_conditional (hc : c.Within (n + 1)) : Agrees conditional (Reader.conditional E) c := by
  rw [conditional, Reader.conditional]
  refine agrees_get ((agrees_lift _ _).bind fun _ c₁ h₁ => ?_)
  have hc₁ := hc.leads h₁
  refine (agrees_operand hexpr hc₁).bind fun condition c₂ h₂ => ?_
  refine (agrees_lift _ _).bind fun _ c₃ h₃ => (agrees_lift _ _).bind fun _ c₄ h₄ => ?_
  have hc₄ := hc₁.leads (h₂.trans (h₃.trans h₄))
  refine (agrees_block hexpr hc₄).bind fun consequence c₅ h₅ => agrees_get ?_
  refine agrees_ite (fun _ => agrees_advance ?_) fun _ => agrees_pure _ _
  refine (agrees_lift _ _).bind fun _ c₆ h₆ => ?_
  have hc₆ := hc₄.leads (h₅.trans (c₅.leads_advance.trans h₆))
  exact (agrees_block hexpr hc₆).bind fun _ _ _ => agrees_pure _ _

lemma agrees_function (hc : c.Within (n + 1)) : Agrees function (Reader.function E) c := by
  rw [function, Reader.function]
  refine agrees_get ((agrees_lift _ _).bind fun _ c₁ h₁ => ?_)
  have hc₁ := hc.leads h₁
  refine (agrees_parameters hc₁).bind fun params c₂ h₂ => ?_
  refine (agrees_lift _ _).bind fun _ c₃ h₃ => ?_
  exact (agrees_block hexpr (hc₁.leads (h₂.trans h₃))).bind fun _ _ _ => agrees_pure _ _

lemma agrees_array (hc : c.Within (n + 1)) : Agrees array (Reader.array E) c := by
  rw [array, Reader.array]
  exact agrees_get ((agrees_expressions hexpr _ hc).bind fun _ _ _ => agrees_pure _ _)

lemma agrees_leftEnd (hc : c.Within (n + 1)) : Agrees leftEnd (Reader.leftEnd E) c := by
  rw [leftEnd, Reader.leftEnd]
  refine agrees_get ?_
  dsimp only
  generalize c.current.kind = kind
  cases kind
  case bang | minus => exact agrees_unary hexpr _ hc
  case lparen => exact agrees_group hexpr hc
  case kwIf => exact agrees_conditional hexpr hc
  case kwFunction => exact agrees_function hexpr hc
  case lbracket => exact agrees_array hexpr hc
  case ident | str | kwTrue | kwFalse => exact agrees_pure _ _
  all_goals exact agrees_lift _ _

lemma agrees_continuation (left : Expr) (hc : c.Within (n + 1)) :
    Agrees (continuation left) (Reader.continuation E left) c := by
  rw [continuation, Reader.continuation]
  refine agrees_get ?_
  dsimp only
  generalize c.current.kind = kind
  cases kind
  case lparen => exact (agrees_expressions hexpr _ hc).bind fun _ _ _ => agrees_pure _ _
  case lbracket =>
    refine (agrees_operand hexpr hc).bind fun index c₁ _ => ?_
    exact (agrees_lift _ _).bind fun _ _ _ => agrees_pure _ _
  case plus | minus | asterisk | slash | lt | gt | eq | notEq =>
    exact agrees_advance ((hexpr hc.advance _).bind fun _ _ _ => agrees_pure _ _)
  all_goals exact agrees_pure _ _

/-- The loop goes on only before a token that continues an expression, which the end of the text
does not. -/
lemma agrees_continuations (context : Precedence) (left : Expr) (hc : c.Within (n + 1))
    (hk : c.Within k) :
    Agrees (continuations context left) (Reader.continuations E context k left) c := by
  induction k generalizing c left with
  | zero =>
    have hlow : ¬ context < c.peek.kind.precedence := by
      rw [hk.kind_peek]
      exact Nat.not_lt_zero _
    refine agrees_call (agrees_get_left ?_)
    rw [if_neg hlow]
    exact agrees_pure _ _
  | succ k ih =>
    rw [Reader.continuations]
    refine agrees_call (agrees_get (agrees_ite (fun _ => agrees_advance ?_) fun _ =>
      agrees_pure _ _))
    have hc' := hc.leads c.leads_advance
    refine (agrees_continuation hexpr left hc').bind fun left' c₁ h₁ => ?_
    exact ih left' (hc'.leads h₁) (hk.advance.leads h₁)

end Pieces

/-- The bound on the nesting of expressions is the number of tokens ahead, which every part of an
expression has fewer of. -/
lemma agrees_expressionWithin (hc : c.Within n) (context : Precedence) :
    Agrees (expression context) (expressionWithin n context) c := by
  induction n generalizing c context with
  | zero =>
    have hleft : Agrees leftEnd Reader.noExpression c := by
      rw [leftEnd]
      refine agrees_get_left ?_
      dsimp only
      rw [hc.kind_current]
      exact agrees_lift _ _
    exact agrees_call (outcomes_bind_of_none hleft)
  | succ n ih =>
    rw [expressionWithin]
    refine agrees_call ((agrees_leftEnd ih hc).bind fun left c₁ h₁ => agrees_get_right ?_)
    have hc₁ := hc.leads h₁
    exact agrees_continuations ih context left hc₁ ⟨hc₁.last, Nat.le_refl _⟩

lemma stops_program (hc : c.last.kind = .eof) : Stops program Reader.program c := by
  have hwithin : c.Within c.ahead.length := ⟨hc, Nat.le_refl _⟩
  have hstatements := stops_statementsUntil agrees_expressionWithin (fun _ => false) hwithin hwithin
  exact hstatements.bind fun _ c' _ => stops_pure _ c'

end Unbounded

/-! ## The end of a program -/

namespace Reader

/-- A loop over statements ends where it has to stop, not where its bound runs out. -/
lemma kind_current_of_statementsUntil {E : Precedence → Reader Expr}
    [∀ context, Forward (E context)] {stop : Kind → Bool} {k : Nat} {c c' : Cursor}
    {ss : List Stmt} (hk : c.Within k) (h : Yields (statementsUntil E stop k) c ss c') :
    stop c'.current.kind ∨ c'.current.kind = .eof := by
  induction k generalizing c ss with
  | zero =>
    obtain ⟨-, rfl⟩ := yields_pure h
    exact Or.inr hk.kind_current
  | succ k ih =>
    rw [statementsUntil, yields_get] at h
    dsimp only at h
    split at h
    · rename_i hstop
      obtain ⟨-, rfl⟩ := yields_pure h
      simpa using hstop
    · obtain ⟨s?, c₁, hs, h⟩ := yields_bind h
      obtain ⟨_, c₂, hadvance, h⟩ := yields_bind h
      obtain rfl := yields_advance hadvance
      obtain ⟨rest, c₃, hrest, h⟩ := yields_bind h
      obtain ⟨-, rfl⟩ := yields_pure h
      exact ih (hk.leads (Forward.leads_of_ok hs)).advance hrest

end Reader

/-- A program is read, without any bound, up to the end of the text. -/
lemma Cursor.program_ends {c : Cursor} (hc : c.last.kind = .eof) :
    Unbounded.program.outcomes c = {(some c.program.1, c.program.2)} ∧ c.Leads c.program.2 ∧
      c.program.2.current.kind = .eof := by
  obtain ⟨p, c', hrun, hread⟩ := Unbounded.stops_program hc
  have hyields : Reader.Yields Reader.program c p c' := hread
  rw [Reader.program, Reader.yields_get] at hyields
  obtain ⟨ss, c₁, hss, hyields⟩ := Reader.yields_bind hyields
  obtain ⟨-, rfl⟩ := Reader.yields_pure hyields
  have hend := Reader.kind_current_of_statementsUntil ⟨hc, Nat.le_refl _⟩ hss
  rw [hrun, Cursor.program, hread]
  exact ⟨rfl, Reader.Forward.leads_of_ok hss, by simpa using hend⟩

/-! ## Reading from any place of a text -/

/-- The cursor in a text behind its first `n` tokens, with some faults noted before. -/
def Cursor.ofPlace (text : String) (n : Nat) (faults : Array SyntaxFault) : Cursor :=
  ⟨(Scanner.ofString text).tokens.1.drop n, (Scanner.ofString text).tokens.2, faults⟩

lemma Cursor.within_ofPlace (text : String) (n : Nat) (faults : Array SyntaxFault) :
    (Cursor.ofPlace text n faults).Within (Scanner.ofString text).tokens.1.length :=
  ⟨Scanner.kind_last_tokens _, (List.drop_sublist _ _).length_le⟩

namespace Unbounded

/-- From the cursor the one reading stops, and it comes to what the other comes to. It has moved
forward only and noted faults only behind those that were there, and it has noted one if it has no
result. -/
structure Settles {α : Type} (x : Unbounded α) (y : Reader α) (c : Cursor) : Prop where
  stops : x.outcomes c = {y.outcome c}
  leads : c.Leads (y.outcome c).2
  faults : (y.outcome c).1 = none → c.faults.size < (y.outcome c).2.faults.size

lemma Agrees.settles {α : Type} {x : Unbounded α} {y : Reader α} {c : Cursor} [Reader.Forward y]
    (h : Agrees x y c) : Settles x y c := by
  rcases hy : y c with ⟨a, c'⟩ | ⟨i, c'⟩
  · have houtcome : y.outcome c = (some a, c') := by rw [Reader.outcome, hy]
    refine ⟨h, ?_, ?_⟩ <;> rw [houtcome]
    · exact Reader.Forward.leads_of_ok hy
    · exact nofun
  · have houtcome : y.outcome c = (none, c') := by rw [Reader.outcome, hy]
    obtain ⟨hleads, hne⟩ := Reader.Forward.leads_of_error hy
    refine ⟨h, ?_, ?_⟩ <;> rw [houtcome]
    · exact hleads
    · -- the faults that were there are the first of those that are there now
      intro _
      refine Nat.lt_of_le_of_ne hleads.faults.length_le fun hlen => hne ?_
      exact hleads.faults.eq_of_length hlen

/-- Reading always ends and drops nothing silently. Whatever the text, the place in it and the
faults noted so far: an expression in any context, a statement, a block, a list of expressions and a
list of parameters are read, without any bound, in finitely many steps, with the outcome that the
parser of the text has for them. None of them moves backwards or takes back a fault, and whichever
is abandoned has noted a fault more. A program is read as well, and up to the end token. -/
theorem reading_ends (text : String) (n : Nat) (faults : Array SyntaxFault) :
    let c := Cursor.ofPlace text n faults
    let E := Reader.expressionWithin (Scanner.ofString text).tokens.1.length
    (∀ context, Settles (expression context) (E context) c) ∧
      Settles statement (Reader.statement E) c ∧
      Settles block (Reader.block E) c ∧
      (∀ close, Settles (expressions close) (Reader.items (Reader.operand E) close) c) ∧
      Settles parameters Reader.parameters c ∧
      program.outcomes c = {(some c.program.1, c.program.2)} ∧ c.Leads c.program.2 ∧
        c.program.2.current.kind = .eof := by
  intro c E
  have hc : c.Within (Scanner.ofString text).tokens.1.length := Cursor.within_ofPlace text n faults
  have hexpr : ∀ {c : Cursor}, c.Within (Scanner.ofString text).tokens.1.length →
      ∀ context, Agrees (expression context) (E context) c := agrees_expressionWithin
  refine ⟨fun context => (hexpr hc context).settles, (agrees_statement hexpr hc).settles,
    (agrees_block hexpr hc.succ).settles,
    fun close => (agrees_expressions hexpr close hc.succ).settles,
    (agrees_parameters hc).settles, Cursor.program_ends hc.last⟩

end Unbounded

end Bhasha
