import Bhasha.Number
import Bhasha.Tree.Basic
import Mathlib.Tactic.Common

/-!
The grammar of programs.

The grammar says which sequences of tokens are programs, and which tree each of them stands for.
It knows nothing of reading: there is no cursor in it and no order in which things are tried.

An expression has a level, the precedence of its outermost construct. An operator between
operands takes on its left an expression of its own level or a tighter one, and on its right only
a tighter one, so operators of one level associate to the left. An operator before its operand
takes another such operator or what is tighter. Calls and indexing take what is as tight as they
are, and so tight is everything that shows its own ends.

Statements need no separator where none is missed, so whether a statement may end depends on the
kind of the token behind it. That kind is an argument of the rules for statements.
-/

namespace Bhasha.Grammar

/-! ## Lists and the ends of statements -/

/-- Further items, each behind a comma. -/
inductive More {α : Type} (Item : List Token → α → Prop) : List Token → List α → Prop
  | nil : More Item [] []
  | cons {comma : Token} {ts us : List Token} {a : α} {rest : List α} :
      comma.kind = .comma → Item ts a → More Item us rest →
      More Item (comma :: (ts ++ us)) (a :: rest)

/-- Items with commas between them. -/
inductive Listed {α : Type} (Item : List Token → α → Prop) : List Token → List α → Prop
  | nil : Listed Item [] []
  | cons {ts us : List Token} {a : α} {rest : List α} :
      Item ts a → More Item us rest → Listed Item (ts ++ us) (a :: rest)

/-- The name of a parameter. -/
inductive Param : List Token → Identifier → Prop
  | mk {t : Token} : t.kind = .ident → Param [t] ⟨t, t.literal⟩

/-- The end of a binding or a return. The semicolon may be left out before a closing brace and at
the end of the text. -/
inductive Closing (next : Kind) : List Token → Prop
  | semicolon {t : Token} : t.kind = .semicolon → Closing next [t]
  | omitted : next = .rbrace ∨ next = .eof → Closing next []

/-- The end of an expression that is a statement. The semicolon may be left out unless the next
token would continue the expression. -/
inductive Ending (next : Kind) : List Token → Prop
  | semicolon {t : Token} : t.kind = .semicolon → Ending next [t]
  | omitted : ¬ Precedence.lowest < next.precedence → Ending next []

/-- The kind of the first token, or the kind of what follows if there is none. -/
def firstKind (ts : List Token) (next : Kind) : Kind :=
  (ts.head?.map Token.kind).getD next

/-! ## Expressions, statements and blocks -/

mutual

/-- The tokens are an expression with the given tree. The precedence is that of its outermost
construct. -/
inductive Phrase : Precedence → List Token → Expr → Prop
  | ident {t : Token} : t.kind = .ident → Phrase .call [t] (.ident ⟨t, t.literal⟩)
  /-- A literal whose value fits. -/
  | int {t : Token} {n : Int64} : t.kind = .int →
      n.toInt = Number.ofDigits t.literal.toList → Phrase .call [t] (.int t n)
  | str {t : Token} : t.kind = .str → Phrase .call [t] (.str t t.literal)
  | true {t : Token} : t.kind = .kwTrue → Phrase .call [t] (.bool t true)
  | false {t : Token} : t.kind = .kwFalse → Phrase .call [t] (.bool t false)
  | group {l r : Token} {ts : List Token} {e : Expr} :
      l.kind = .lparen → Whole ts e → r.kind = .rparen → Phrase .call (l :: (ts ++ [r])) e
  | cond {t l r : Token} {ts us : List Token} {c : Expr} {b : Block} :
      t.kind = .kwIf → l.kind = .lparen → Whole ts c → r.kind = .rparen → Braced us b →
      Phrase .call (t :: l :: (ts ++ r :: us)) (.cond t c b none)
  | condElse {t l r e : Token} {ts us vs : List Token} {c : Expr} {b b' : Block} :
      t.kind = .kwIf → l.kind = .lparen → Whole ts c → r.kind = .rparen → Braced us b →
      e.kind = .kwElse → Braced vs b' →
      Phrase .call (t :: l :: (ts ++ r :: (us ++ e :: vs))) (.cond t c b (some b'))
  | function {t l r : Token} {ts us : List Token} {ids : List Identifier} {b : Block} :
      t.kind = .kwFunction → l.kind = .lparen → Listed Param ts ids → r.kind = .rparen →
      Braced us b → Phrase .call (t :: l :: (ts ++ r :: us)) (.function t ids b)
  | array {l r : Token} {ts : List Token} {es : List Expr} :
      l.kind = .lbracket → Listed Whole ts es → r.kind = .rbracket →
      Phrase .call (l :: (ts ++ [r])) (.array l es)
  | call {l r : Token} {ts us : List Token} {callee : Expr} {args : List Expr} :
      Phrase .call ts callee → l.kind = .lparen → Listed Whole us args → r.kind = .rparen →
      Phrase .call (ts ++ l :: (us ++ [r])) (.call l callee args)
  | index {l r : Token} {ts us : List Token} {base index : Expr} :
      Phrase .call ts base → l.kind = .lbracket → Whole us index → r.kind = .rbracket →
      Phrase .call (ts ++ l :: (us ++ [r])) (.index l base index)
  | unary {t : Token} {ts : List Token} {op : UnaryOp} {p : Precedence} {e : Expr} :
      t.kind.unaryOp? = some op → .unary ≤ p → Phrase p ts e →
      Phrase .unary (t :: ts) (.unary t op e)
  | binary {t : Token} {ts us : List Token} {op : BinaryOp} {p q : Precedence}
      {left right : Expr} :
      t.kind.binaryOp? = some op → op.precedence ≤ p → Phrase p ts left →
      op.precedence < q → Phrase q us right →
      Phrase op.precedence (ts ++ t :: us) (.binary t op left right)

/-- The tokens are an expression of any level. -/
inductive Whole : List Token → Expr → Prop
  | mk {ts : List Token} {p : Precedence} {e : Expr} : Phrase p ts e → Whole ts e

/-- The tokens are a statement, where a token of the given kind follows. -/
inductive Sentence : Kind → List Token → Stmt → Prop
  | bind {next : Kind} {t id a : Token} {ts us : List Token} {e : Expr} :
      t.kind = .kwLet → id.kind = .ident → a.kind = .assign → Whole ts e →
      Closing next us →
      Sentence next (t :: id :: a :: (ts ++ us)) (.bind t ⟨id, id.literal⟩ e)
  | ret {next : Kind} {t : Token} {ts us : List Token} {e : Expr} :
      t.kind = .kwReturn → Whole ts e → Closing next us →
      Sentence next (t :: (ts ++ us)) (.ret t e)
  | expr {next : Kind} {t : Token} {ts us : List Token} {e : Expr} :
      Whole (t :: ts) e → Ending next us → Sentence next (t :: (ts ++ us)) (.expr t e)

/-- The tokens are statements one after the other, where a token of the given kind follows the
last. -/
inductive Sentences : Kind → List Token → List Stmt → Prop
  | nil {next : Kind} : Sentences next [] []
  | cons {next : Kind} {ts us : List Token} {s : Stmt} {ss : List Stmt} :
      Sentence (firstKind us next) ts s → Sentences next us ss →
      Sentences next (ts ++ us) (s :: ss)

/-- The tokens are statements between braces. -/
inductive Braced : List Token → Block → Prop
  | mk {l r : Token} {ts : List Token} {ss : List Stmt} :
      l.kind = .lbrace → Sentences .rbrace ts ss → r.kind = .rbrace →
      Braced (l :: (ts ++ [r])) (.mk l ss)

end

/-- The tokens of a whole text are a program with the given tree. -/
def Derives (ts : List Token) (p : Program) : Prop :=
  Sentences .eof ts p.statements

/-! ## First tokens and levels -/

/-- The kinds that an expression can start with. -/
def startsPhrase : Kind → Bool
  | .ident | .int | .str | .kwTrue | .kwFalse | .bang | .minus | .lparen | .kwIf | .kwFunction
  | .lbracket => true
  | _ => false

/-- The kinds that a statement can start with. -/
def startsSentence (k : Kind) : Bool :=
  k == .kwLet || k == .kwReturn || startsPhrase k

lemma Phrase.exists_cons : ∀ {p : Precedence} {ts : List Token} {e : Expr}, Phrase p ts e →
    ∃ t us, ts = t :: us ∧ startsPhrase t.kind
  | _, _, _, .ident h | _, _, _, .int h _ | _, _, _, .str h | _, _, _, .true h
  | _, _, _, .false h | _, _, _, .group h _ _ | _, _, _, .cond h _ _ _ _
  | _, _, _, .condElse h _ _ _ _ _ _ | _, _, _, .function h _ _ _ _
  | _, _, _, .array h _ _ => ⟨_, _, rfl, by rw [h]; rfl⟩
  | _, _, _, .call hf _ _ _ => by
    obtain ⟨t, us, rfl, ht⟩ := hf.exists_cons
    exact ⟨t, _, rfl, ht⟩
  | _, _, _, .index hb _ _ _ => by
    obtain ⟨t, us, rfl, ht⟩ := hb.exists_cons
    exact ⟨t, _, rfl, ht⟩
  | _, _, _, .unary (t := t) h _ _ => by
    refine ⟨_, _, rfl, ?_⟩
    cases hk : t.kind <;> simp_all [Kind.unaryOp?, startsPhrase]
  | _, _, _, .binary _ _ hl _ _ => by
    obtain ⟨t, us, rfl, ht⟩ := hl.exists_cons
    exact ⟨t, _, rfl, ht⟩

lemma Whole.exists_cons {ts : List Token} {e : Expr} (h : Whole ts e) :
    ∃ t us, ts = t :: us ∧ startsPhrase t.kind := by
  obtain ⟨h⟩ := h
  exact h.exists_cons

lemma Sentence.exists_cons {next : Kind} {ts : List Token} {s : Stmt} (h : Sentence next ts s) :
    ∃ t us, ts = t :: us ∧ startsSentence t.kind := by
  cases h with
  | bind ht _ _ _ _ => exact ⟨_, _, rfl, by rw [ht]; rfl⟩
  | ret ht _ _ => exact ⟨_, _, rfl, by rw [ht]; rfl⟩
  | expr he _ =>
    obtain ⟨t, us, heq, ht⟩ := he.exists_cons
    obtain ⟨rfl, -⟩ := List.cons.inj heq
    exact ⟨_, _, rfl, by simp [startsSentence, ht]⟩

/-- Every construct is tighter than the lowest precedence. -/
lemma Phrase.lowest_lt {p : Precedence} {ts : List Token} {e : Expr} (h : Phrase p ts e) :
    .lowest < p := by
  cases h with
  | @binary _ _ _ op _ _ _ _ _ _ _ _ _ => cases op <;> decide
  | _ => decide

lemma firstKind_append (us rest : List Token) (next : Kind) :
    firstKind (us ++ rest) next = firstKind us (firstKind rest next) := by
  cases us <;> rfl

@[simp] lemma firstKind_cons (t : Token) (ts : List Token) (next : Kind) :
    firstKind (t :: ts) next = t.kind := rfl

end Bhasha.Grammar
