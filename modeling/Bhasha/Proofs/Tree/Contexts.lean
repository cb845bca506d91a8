import Bhasha.Proofs.Tree.Termination
import Bhasha.Tree.Render

/-!
An expression in two contexts.

The context of an expression decides where the expression ends, and nothing else. A token that
continues it in a tight context continues it in a looser one too, so a reading in the looser context
goes the same way at first. Where the tighter one stops, the looser one takes up the loop with what
has been read by then, and that stays at the left end of whatever comes out.

The loops are compared without their bounds, since the bound of a loop that is taken up again is
another one: there the loop of the looser context is the loop of the tighter one with the loop of
the looser one behind it (`Unbounded.outcomes_continuations_bind`).
-/

namespace Bhasha

/-! ## The left end of a tree -/

/-- The expression stands at the left end of another: it is the other, or it stands at the left end
of its left operand, of what it calls, or of what it takes an element of. -/
inductive Expr.OnLeftSpine (e : Expr) : Expr → Prop
  | refl : OnLeftSpine e e
  | binary {token : Token} {op : BinaryOp} {left right : Expr} :
      OnLeftSpine e left → OnLeftSpine e (.binary token op left right)
  | call {token : Token} {callee : Expr} {args : List Expr} :
      OnLeftSpine e callee → OnLeftSpine e (.call token callee args)
  | index {token : Token} {base place : Expr} :
      OnLeftSpine e base → OnLeftSpine e (.index token base place)

lemma Expr.OnLeftSpine.trans {d e e' : Expr} (h : d.OnLeftSpine e) (h' : e.OnLeftSpine e') :
    d.OnLeftSpine e' := by
  induction h' with
  | refl => exact h
  | binary _ ih => exact .binary ih
  | call _ ih => exact .call ih
  | index _ ih => exact .index ih

namespace Reader

variable {E : Precedence → Reader Expr} {left e : Expr} {c c' : Cursor}

/-- What continues an expression is put around it. -/
lemma onLeftSpine_of_continuation (h : Yields (continuation E left) c e c') :
    left.OnLeftSpine e := by
  rw [continuation, yields_get] at h
  dsimp only at h
  split at h
  · obtain ⟨args, c₁, -, h⟩ := yields_bind h
    obtain ⟨rfl, -⟩ := yields_pure h
    exact .call .refl
  · obtain ⟨index, c₁, -, h⟩ := yields_bind h
    obtain ⟨_, c₂, -, h⟩ := yields_bind h
    obtain ⟨rfl, -⟩ := yields_pure h
    exact .index .refl
  · split at h
    · obtain ⟨_, c₁, -, h⟩ := yields_bind h
      obtain ⟨right, c₂, -, h⟩ := yields_bind h
      obtain ⟨rfl, -⟩ := yields_pure h
      exact .binary .refl
    · obtain ⟨rfl, -⟩ := yields_pure h
      exact .refl

lemma onLeftSpine_of_continuations {context : Precedence} {k : Nat}
    (h : Yields (continuations E context k left) c e c') : left.OnLeftSpine e := by
  induction k generalizing left c with
  | zero =>
    obtain ⟨rfl, -⟩ := yields_pure h
    exact .refl
  | succ k ih =>
    rw [continuations, yields_get] at h
    split at h
    · obtain ⟨_, c₁, -, h⟩ := yields_bind h
      obtain ⟨left', c₂, hleft, h⟩ := yields_bind h
      exact (onLeftSpine_of_continuation hleft).trans (ih h)
    · obtain ⟨rfl, -⟩ := yields_pure h
      exact .refl

end Reader

/-! ## One loop behind another -/

namespace Unbounded

variable {α β : Type} {c c' : Cursor} {p q : Precedence} {n k : Nat}

/-- The loop goes round before a token that holds the expression more tightly than the context. -/
lemma outcomes_continuations_of_lt (h : q < c.peek.kind.precedence) (left : Expr) :
    (continuations q left).outcomes c =
      (continuation left >>= continuations q).outcomes c.advance := by
  refine (outcomes_call _ c).trans ((outcomes_bind_of_some (outcomes_get c)).trans ?_)
  rw [if_pos h]
  exact outcomes_bind_of_some (outcomes_advance c)

lemma outcomes_continuations_of_not_lt (h : ¬ q < c.peek.kind.precedence) (left : Expr) :
    (continuations q left).outcomes c = {(some left, c)} := by
  refine (outcomes_call _ c).trans ((outcomes_bind_of_some (outcomes_get c)).trans ?_)
  rw [if_neg h]
  exact outcomes_pure left c

/-- In a looser context the loop goes as in the tighter one, and then on from there. -/
lemma outcomes_continuations_bind (hpq : p ≤ q) (left : Expr) (hk : c.Within k) :
    (continuations p left).outcomes c = (continuations q left >>= continuations p).outcomes c := by
  induction k generalizing c left with
  | zero =>
    have hstop : ¬ q < c.peek.kind.precedence := by
      rw [hk.kind_peek]
      exact Nat.not_lt_zero _
    rw [outcomes_bind_of_some (outcomes_continuations_of_not_lt hstop left)]
  | succ k ih =>
    by_cases hq : q < c.peek.kind.precedence
    · have hp : p < c.peek.kind.precedence := Nat.lt_of_le_of_lt hpq hq
      have hround := agrees_continuation (n := k) agrees_expressionWithin left
        (hk.leads c.leads_advance)
      have hloose := outcomes_continuations_of_lt hp left
      have htight := outcomes_continuations_of_lt hq left
      -- both go round together, and what they come to there is the same
      unfold Agrees Reader.outcome at hround
      rcases hread : Reader.continuation (Reader.expressionWithin k) left c.advance with
        ⟨left', c₁⟩ | ⟨i, c₁⟩
      · rw [hread] at hround
        rw [outcomes_bind_of_some hround] at hloose htight
        rw [hloose, outcomes_bind_congr htight]
        exact ih left' (hk.advance.leads (Reader.Forward.leads_of_ok hread))
      · rw [hread] at hround
        rw [outcomes_bind_of_none hround] at hloose htight
        rw [hloose, outcomes_bind_of_none htight]
    · rw [outcomes_bind_of_some (outcomes_continuations_of_not_lt hq left)]

/-- To read in a looser context is to read in the tighter one and to go on with the loop. -/
lemma outcomes_expression_bind (hpq : p ≤ q) (hc : c.Within n) :
    (expression p).outcomes c = (expression q >>= continuations p).outcomes c := by
  have hleft := agrees_leftEnd (n := n) agrees_expressionWithin hc.succ
  have hexpression : ∀ context, (expression context).outcomes c =
      (leftEnd >>= continuations context).outcomes c := fun context => outcomes_call _ c
  unfold Agrees Reader.outcome at hleft
  rcases hread : Reader.leftEnd (Reader.expressionWithin n) c with ⟨left, c₁⟩ | ⟨i, c₁⟩
  · rw [hread] at hleft
    have hstart : ∀ context, (expression context).outcomes c =
        (continuations context left).outcomes c₁ := fun context =>
      (hexpression context).trans (outcomes_bind_of_some hleft)
    rw [hstart p, outcomes_bind_congr (hstart q)]
    exact outcomes_continuations_bind hpq left (hc.leads (Reader.Forward.leads_of_ok hread))
  · rw [hread] at hleft
    have hnone : ∀ context, (expression context).outcomes c = {(none, c₁)} := fun context =>
      (hexpression context).trans (outcomes_bind_of_none hleft)
    rw [hnone p, outcomes_bind_of_none (hnone q)]

end Unbounded

/-! ## Going on from a cursor -/

namespace Cursor

/-- The expression `left`, read up to the cursor, with all that continues it in a context. The
number of tokens ahead is the bound, as it is where a reading starts. -/
def continued (c : Cursor) (context : Precedence) (left : Expr) : Option Expr × Cursor :=
  (Reader.continuations (Reader.expressionWithin c.ahead.length) context c.ahead.length
    left).outcome c

variable {c : Cursor}

lemma expression_eq_outcome (c : Cursor) (context : Precedence) :
    c.expression context = (Reader.expressionWithin c.ahead.length context).outcome c := by
  unfold expression Reader.outcome
  cases Reader.expressionWithin c.ahead.length context c <;> rfl

/-- A reading in a context, with its bound and without. -/
lemma settles_expression (hc : c.last.kind = .eof) (context : Precedence) :
    Unbounded.Settles (Unbounded.expression context)
      (Reader.expressionWithin c.ahead.length context) c :=
  (Unbounded.agrees_expressionWithin ⟨hc, Nat.le_refl _⟩ context).settles

/-- A loop that is taken up, with its bound and without. -/
lemma settles_continued (hc : c.last.kind = .eof) (context : Precedence) (left : Expr) :
    Unbounded.Settles (Unbounded.continuations context left)
      (Reader.continuations (Reader.expressionWithin c.ahead.length) context c.ahead.length left)
      c :=
  have hwithin : c.Within c.ahead.length := ⟨hc, Nat.le_refl _⟩
  (Unbounded.agrees_continuations Unbounded.agrees_expressionWithin context left hwithin.succ
    hwithin).settles

lemma onLeftSpine_of_continued {context : Precedence} {left e : Expr}
    (h : (c.continued context left).1 = some e) : left.OnLeftSpine e := by
  unfold continued Reader.outcome at h
  split at h
  · next hread =>
    obtain rfl := Option.some.inj h
    exact Reader.onLeftSpine_of_continuations hread
  · cases h

/-- What is read in a tight context is the beginning of what is read in a looser one. From any
cursor before the end of a text: if there is no expression in the tighter context, there is none in
the looser one, and the cursor and the faults behind it are the same. If there is one, reading in
the looser context comes to what the loop of that context comes to, with the bound of that place or
without any, if it goes on behind the expression with the expression as its left operand. So no less
is read, no fault is taken back, and the expression stands at the left end of the result if there is
one. -/
theorem expression_of_tighter {p q : Precedence} (hpq : p ≤ q) (c : Cursor)
    (hc : c.last.kind = .eof) :
    (∀ c', c.expression q = (none, c') → c.expression p = (none, c')) ∧
      ∀ e c', c.expression q = (some e, c') →
        c.expression p = c'.continued p e ∧
          (Unbounded.continuations p e).outcomes c' = {c.expression p} ∧
          c'.Leads (c.expression p).2 ∧
          ∀ e', (c.expression p).1 = some e' → e.OnLeftSpine e' := by
  have hlooser := (settles_expression hc p).stops
  have htighter := settles_expression hc q
  -- both readings as one, and what the first half of it comes to
  rw [Unbounded.outcomes_expression_bind hpq ⟨hc, Nat.le_refl _⟩,
    ← expression_eq_outcome] at hlooser
  have hfirst := htighter.stops
  have hleads := htighter.leads
  rw [← expression_eq_outcome] at hfirst hleads
  refine ⟨fun c' hq => ?_, fun e c' hq => ?_⟩
  · rw [hq] at hfirst
    rw [Unbounded.outcomes_bind_of_none hfirst] at hlooser
    exact (Set.singleton_injective hlooser).symm
  · rw [hq] at hfirst hleads
    rw [Unbounded.outcomes_bind_of_some hfirst] at hlooser
    have hrest := settles_continued (hleads.last ▸ hc) p e
    have hresult : c.expression p = c'.continued p e :=
      Set.singleton_injective (hlooser.symm.trans hrest.stops)
    refine ⟨hresult, hlooser, ?_, fun e' he' => ?_⟩
    · rw [hresult]
      exact hrest.leads
    · rw [hresult] at he'
      exact onLeftSpine_of_continued he'

/-- A product is read before a sum is, and the sum and a comparison are put around it. Where the
product lacks an operand, neither is read. -/
theorem expression_of_tighter_of_product :
    (let c := Cursor.ofString "f(1) * -b + c == [d] e"
      ∃ e c' e', c.expression .sum = (some e, c') ∧ e.render = "(f(1) * (-b))" ∧
        c'.peek.kind = .plus ∧ c.expression .lowest = c'.continued .lowest e ∧
        (c.expression .lowest).1 = some e' ∧ e'.render = "(((f(1) * (-b)) + c) == [d])" ∧
        e.OnLeftSpine e') ∧
      let c := Cursor.ofString "a * ) + 1"
      ∃ c', c.expression .sum = (none, c') ∧ c'.faults.toList = [.noExpression .rparen 1] ∧
        c.expression .lowest = (none, c') := by
  have hlast : ∀ text, (Cursor.ofString text).last.kind = .eof := fun text =>
    Scanner.kind_last_tokens _
  refine ⟨?_, ?_⟩
  · obtain ⟨hgoes, -, -, hspine⟩ := (expression_of_tighter (p := .lowest) (q := .sum) (by decide)
      (Cursor.ofString "f(1) * -b + c == [d] e") (hlast _)).2 _ _ rfl
    exact ⟨_, _, _, rfl, by decide +kernel, rfl, hgoes, rfl, by decide +kernel, hspine _ rfl⟩
  · have hnone := (expression_of_tighter (p := .lowest) (q := .sum) (by decide)
      (Cursor.ofString "a * ) + 1") (hlast _)).1 _ rfl
    exact ⟨_, rfl, by decide +kernel, hnone⟩

end Cursor

end Bhasha
