import Bhasha.Tree.Basic
import Mathlib.Data.Set.Function

/-!
Trees with other marks.

A tree has a shape, and it is marked: with the tokens it was read from, and with the names of its
identifiers. A relabelling changes the marks and leaves the shape. Two relabellings matter here.
One puts a single token in place of all others, so that only the meaning of a tree is left; the
other puts one name in place of another.

To put one name in place of another can change what an identifier refers to. `Expr.Fits` says
when it does not. It is stated with the set of names that can occur in a scope: in such a set no
two names may become the same, and a function literal may come with a set of its own, whose names
are found in the scope around it unless they are parameters.
-/

namespace Bhasha

/-- What a tree is marked with. -/
inductive Mark where
  /-- A token that a node was read from. -/
  | token (t : Token)
  /-- The name of an identifier. -/
  | name (n : String)
deriving DecidableEq

/-- A change of the marks of trees. -/
structure Relabelling where
  /-- The new token for a token. -/
  token : Token → Token
  /-- The new name for a name. -/
  name : String → String
  /-- The new line for a line. -/
  line : Nat → Nat
  /-- A token takes its line along. -/
  line_token : ∀ t, (token t).line = line t.line

namespace Relabelling

/-- The new mark for a mark. -/
def mark (ψ : Relabelling) : Mark → Mark
  | .token t => .token (ψ.token t)
  | .name n => .name (ψ.name n)

@[simp] lemma mark_token (ψ : Relabelling) (t : Token) :
    ψ.mark (.token t) = .token (ψ.token t) := rfl

@[simp] lemma mark_name (ψ : Relabelling) (n : String) : ψ.mark (.name n) = .name (ψ.name n) := rfl

/-- One relabelling after another. -/
def comp (φ ψ : Relabelling) : Relabelling where
  token := φ.token ∘ ψ.token
  name := φ.name ∘ ψ.name
  line := φ.line ∘ ψ.line
  line_token t := by simp [φ.line_token, ψ.line_token]

end Relabelling

/-! ## Relabelled trees -/

/-- The identifier with other marks. -/
def Identifier.relabel (ψ : Relabelling) (id : Identifier) : Identifier :=
  ⟨ψ.token id.token, ψ.name id.name⟩

mutual

/-- The expression with other marks. -/
def Expr.relabel (ψ : Relabelling) : Expr → Expr
  | .ident id => .ident (id.relabel ψ)
  | .int token value => .int (ψ.token token) value
  | .str token value => .str (ψ.token token) value
  | .bool token value => .bool (ψ.token token) value
  | .unary token op operand => .unary (ψ.token token) op (operand.relabel ψ)
  | .binary token op left right =>
    .binary (ψ.token token) op (left.relabel ψ) (right.relabel ψ)
  | .cond token condition consequence none =>
    .cond (ψ.token token) (condition.relabel ψ) (consequence.relabel ψ) none
  | .cond token condition consequence (some alternative) =>
    .cond (ψ.token token) (condition.relabel ψ) (consequence.relabel ψ)
      (some (alternative.relabel ψ))
  | .function token params body =>
    .function (ψ.token token) (params.map (Identifier.relabel ψ)) (body.relabel ψ)
  | .call token callee args => .call (ψ.token token) (callee.relabel ψ) (Expr.relabelAll ψ args)
  | .array token elements => .array (ψ.token token) (Expr.relabelAll ψ elements)
  | .index token base index => .index (ψ.token token) (base.relabel ψ) (index.relabel ψ)

/-- The expressions with other marks. -/
def Expr.relabelAll (ψ : Relabelling) : List Expr → List Expr
  | [] => []
  | e :: rest => e.relabel ψ :: Expr.relabelAll ψ rest

/-- The statement with other marks. -/
def Stmt.relabel (ψ : Relabelling) : Stmt → Stmt
  | .bind token id value => .bind (ψ.token token) (id.relabel ψ) (value.relabel ψ)
  | .ret token value => .ret (ψ.token token) (value.relabel ψ)
  | .expr token value => .expr (ψ.token token) (value.relabel ψ)

/-- The statements with other marks. -/
def Stmt.relabelAll (ψ : Relabelling) : List Stmt → List Stmt
  | [] => []
  | s :: rest => s.relabel ψ :: Stmt.relabelAll ψ rest

/-- The block with other marks. -/
def Block.relabel (ψ : Relabelling) : Block → Block
  | .mk token statements => .mk (ψ.token token) (Stmt.relabelAll ψ statements)

end

/-- The function literal with other marks. -/
def Lambda.relabel (ψ : Relabelling) (l : Lambda) : Lambda :=
  ⟨ψ.token l.token, l.params.map (Identifier.relabel ψ), l.body.relabel ψ⟩

lemma Lambda.toExpr_relabel (ψ : Relabelling) (l : Lambda) :
    (l.relabel ψ).toExpr = l.toExpr.relabel ψ := rfl

lemma Lambda.eq_of_toExpr_eq {l l' : Lambda} (h : l.toExpr = l'.toExpr) : l = l' := by
  obtain ⟨t, ids, b⟩ := l
  obtain ⟨t', ids', b'⟩ := l'
  obtain ⟨rfl, rfl, rfl⟩ := Expr.function.inj h
  rfl

/-- The program with other marks. -/
def Program.relabel (ψ : Relabelling) (p : Program) : Program :=
  ⟨Stmt.relabelAll ψ p.statements⟩

lemma Expr.relabelAll_eq_map (ψ : Relabelling) (es : List Expr) :
    Expr.relabelAll ψ es = es.map (Expr.relabel ψ) := by
  induction es with
  | nil => rfl
  | cons e es ih => rw [Expr.relabelAll, ih, List.map_cons]

lemma Stmt.relabelAll_eq_map (ψ : Relabelling) (ss : List Stmt) :
    Stmt.relabelAll ψ ss = ss.map (Stmt.relabel ψ) := by
  induction ss with
  | nil => rfl
  | cons s ss ih => rw [Stmt.relabelAll, ih, List.map_cons]

lemma Expr.relabel_cond (ψ : Relabelling) (token : Token) (c : Expr) (b : Block)
    (b? : Option Block) :
    (Expr.cond token c b b?).relabel ψ =
      .cond (ψ.token token) (c.relabel ψ) (b.relabel ψ) (b?.map (Block.relabel ψ)) := by
  cases b? <;> rfl

/-! ## The marks of a tree -/

/-- The marks of an identifier. -/
def Identifier.marks (id : Identifier) : List Mark :=
  [.token id.token, .name id.name]

mutual

/-- The marks of an expression. -/
def Expr.marks : Expr → List Mark
  | .ident id => id.marks
  | .int token _ | .str token _ | .bool token _ => [.token token]
  | .unary token _ operand => .token token :: operand.marks
  | .binary token _ left right => .token token :: (left.marks ++ right.marks)
  | .cond token condition consequence none =>
    .token token :: (condition.marks ++ consequence.marks)
  | .cond token condition consequence (some alternative) =>
    .token token :: (condition.marks ++ (consequence.marks ++ alternative.marks))
  | .function token params body => .token token :: (params.flatMap Identifier.marks ++ body.marks)
  | .call token callee args => .token token :: (callee.marks ++ Expr.marksAll args)
  | .array token elements => .token token :: Expr.marksAll elements
  | .index token base index => .token token :: (base.marks ++ index.marks)

/-- The marks of expressions. -/
def Expr.marksAll : List Expr → List Mark
  | [] => []
  | e :: rest => e.marks ++ Expr.marksAll rest

/-- The marks of a statement. -/
def Stmt.marks : Stmt → List Mark
  | .bind token id value => .token token :: (id.marks ++ value.marks)
  | .ret token value => .token token :: value.marks
  | .expr token value => .token token :: value.marks

/-- The marks of statements. -/
def Stmt.marksAll : List Stmt → List Mark
  | [] => []
  | s :: rest => s.marks ++ Stmt.marksAll rest

/-- The marks of a block. -/
def Block.marks : Block → List Mark
  | .mk token statements => .token token :: Stmt.marksAll statements

end

/-- The marks of a program. -/
def Program.marks (p : Program) : List Mark :=
  Stmt.marksAll p.statements

lemma Expr.forall_marks_cond {P : Mark → Prop} {token : Token} {c : Expr} {b : Block}
    {b? : Option Block} :
    (∀ k ∈ (Expr.cond token c b b?).marks, P k) ↔
      P (.token token) ∧ (∀ k ∈ c.marks, P k) ∧ (∀ k ∈ b.marks, P k) ∧
        ∀ b' ∈ b?, ∀ k ∈ b'.marks, P k := by
  cases b? <;> simp [Expr.marks, or_imp, forall_and]

section

variable {ψ : Relabelling}

lemma Identifier.marks_relabel (id : Identifier) :
    (id.relabel ψ).marks = id.marks.map ψ.mark := rfl

lemma Identifier.flatMap_marks_relabel (ids : List Identifier) :
    (ids.map (Identifier.relabel ψ)).flatMap Identifier.marks =
      (ids.flatMap Identifier.marks).map ψ.mark := by
  rw [List.flatMap_map, List.map_flatMap]
  rfl

mutual

/-- Relabelling changes each mark by itself. -/
lemma Expr.marks_relabel : ∀ e : Expr, (e.relabel ψ).marks = e.marks.map ψ.mark
  | .ident _ | .int _ _ | .str _ _ | .bool _ _ => rfl
  | .unary _ _ e => by simp [Expr.relabel, Expr.marks, e.marks_relabel]
  | .binary _ _ left right => by
    simp [Expr.relabel, Expr.marks, left.marks_relabel, right.marks_relabel]
  | .cond _ c b none => by simp [Expr.relabel, Expr.marks, c.marks_relabel, b.marks_relabel]
  | .cond _ c b (some b') => by
    simp [Expr.relabel, Expr.marks, c.marks_relabel, b.marks_relabel, b'.marks_relabel]
  | .function _ ids b => by
    rw [Expr.relabel, Expr.marks, Expr.marks, Identifier.flatMap_marks_relabel, b.marks_relabel,
      List.map_cons, List.map_append, ψ.mark_token]
  | .call _ callee args => by
    simp [Expr.relabel, Expr.marks, callee.marks_relabel, Expr.marksAll_relabelAll args]
  | .array _ es => by simp [Expr.relabel, Expr.marks, Expr.marksAll_relabelAll es]
  | .index _ base index => by
    simp [Expr.relabel, Expr.marks, base.marks_relabel, index.marks_relabel]

lemma Expr.marksAll_relabelAll : ∀ es : List Expr,
    Expr.marksAll (Expr.relabelAll ψ es) = (Expr.marksAll es).map ψ.mark
  | [] => rfl
  | e :: es => by
    simp [Expr.relabelAll, Expr.marksAll, e.marks_relabel, Expr.marksAll_relabelAll es]

lemma Stmt.marks_relabel : ∀ s : Stmt, (s.relabel ψ).marks = s.marks.map ψ.mark
  | .bind _ id e => by simp [Stmt.relabel, Stmt.marks, id.marks_relabel, e.marks_relabel]
  | .ret _ e | .expr _ e => by simp [Stmt.relabel, Stmt.marks, e.marks_relabel]

lemma Stmt.marksAll_relabelAll : ∀ ss : List Stmt,
    Stmt.marksAll (Stmt.relabelAll ψ ss) = (Stmt.marksAll ss).map ψ.mark
  | [] => rfl
  | s :: ss => by
    simp [Stmt.relabelAll, Stmt.marksAll, s.marks_relabel, Stmt.marksAll_relabelAll ss]

lemma Block.marks_relabel : ∀ b : Block, (b.relabel ψ).marks = b.marks.map ψ.mark
  | .mk _ ss => by simp [Block.relabel, Block.marks, Stmt.marksAll_relabelAll ss]

end

lemma Identifier.relabel_eq_self {id : Identifier} (h : ∀ k ∈ id.marks, ψ.mark k = k) :
    id.relabel ψ = id := by
  obtain ⟨token, name⟩ := id
  simpa [Identifier.marks, Identifier.relabel] using h

lemma Identifier.map_relabel_eq_self {ids : List Identifier}
    (h : ∀ k ∈ ids.flatMap Identifier.marks, ψ.mark k = k) :
    ids.map (Identifier.relabel ψ) = ids := by
  refine (List.map_congr_left fun id hid => ?_).trans (List.map_id ids)
  exact id.relabel_eq_self fun k hk => h k (List.mem_flatMap_of_mem hid hk)

mutual

/-- A tree is the same if its marks are. -/
lemma Expr.relabel_eq_self : ∀ e : Expr, (∀ k ∈ e.marks, ψ.mark k = k) → e.relabel ψ = e
  | .ident id, h => by rw [Expr.relabel, id.relabel_eq_self h]
  | .int _ _, h | .str _ _, h | .bool _ _, h => by simpa [Expr.marks, Expr.relabel] using h
  | .unary _ _ e, h => by
    simp only [Expr.marks, List.forall_mem_cons, Relabelling.mark_token, Mark.token.injEq] at h
    rw [Expr.relabel, h.1, e.relabel_eq_self h.2]
  | .binary _ _ left right, h => by
    simp only [Expr.marks, List.forall_mem_cons, List.forall_mem_append, Relabelling.mark_token,
      Mark.token.injEq] at h
    rw [Expr.relabel, h.1, left.relabel_eq_self h.2.1, right.relabel_eq_self h.2.2]
  | .cond _ c b none, h => by
    simp only [Expr.marks, List.forall_mem_cons, List.forall_mem_append, Relabelling.mark_token,
      Mark.token.injEq] at h
    rw [Expr.relabel, h.1, c.relabel_eq_self h.2.1, b.relabel_eq_self h.2.2]
  | .cond _ c b (some b'), h => by
    simp only [Expr.marks, List.forall_mem_cons, List.forall_mem_append, Relabelling.mark_token,
      Mark.token.injEq] at h
    rw [Expr.relabel, h.1, c.relabel_eq_self h.2.1, b.relabel_eq_self h.2.2.1,
      b'.relabel_eq_self h.2.2.2]
  | .function _ ids b, h => by
    simp only [Expr.marks, List.forall_mem_cons, List.forall_mem_append, Relabelling.mark_token,
      Mark.token.injEq] at h
    rw [Expr.relabel, h.1, Identifier.map_relabel_eq_self h.2.1, b.relabel_eq_self h.2.2]
  | .call _ callee args, h => by
    simp only [Expr.marks, List.forall_mem_cons, List.forall_mem_append, Relabelling.mark_token,
      Mark.token.injEq] at h
    rw [Expr.relabel, h.1, callee.relabel_eq_self h.2.1, Expr.relabelAll_eq_self args h.2.2]
  | .array _ es, h => by
    simp only [Expr.marks, List.forall_mem_cons, Relabelling.mark_token, Mark.token.injEq] at h
    rw [Expr.relabel, h.1, Expr.relabelAll_eq_self es h.2]
  | .index _ base index, h => by
    simp only [Expr.marks, List.forall_mem_cons, List.forall_mem_append, Relabelling.mark_token,
      Mark.token.injEq] at h
    rw [Expr.relabel, h.1, base.relabel_eq_self h.2.1, index.relabel_eq_self h.2.2]

lemma Expr.relabelAll_eq_self : ∀ es : List Expr, (∀ k ∈ Expr.marksAll es, ψ.mark k = k) →
    Expr.relabelAll ψ es = es
  | [], _ => rfl
  | e :: es, h => by
    simp only [Expr.marksAll, List.forall_mem_append] at h
    rw [Expr.relabelAll, e.relabel_eq_self h.1, Expr.relabelAll_eq_self es h.2]

lemma Stmt.relabel_eq_self : ∀ s : Stmt, (∀ k ∈ s.marks, ψ.mark k = k) → s.relabel ψ = s
  | .bind _ id e, h => by
    simp only [Stmt.marks, List.forall_mem_cons, List.forall_mem_append, Relabelling.mark_token,
      Mark.token.injEq] at h
    rw [Stmt.relabel, h.1, id.relabel_eq_self h.2.1, e.relabel_eq_self h.2.2]
  | .ret _ e, h | .expr _ e, h => by
    simp only [Stmt.marks, List.forall_mem_cons, Relabelling.mark_token, Mark.token.injEq] at h
    rw [Stmt.relabel, h.1, e.relabel_eq_self h.2]

lemma Stmt.relabelAll_eq_self : ∀ ss : List Stmt, (∀ k ∈ Stmt.marksAll ss, ψ.mark k = k) →
    Stmt.relabelAll ψ ss = ss
  | [], _ => rfl
  | s :: ss, h => by
    simp only [Stmt.marksAll, List.forall_mem_append] at h
    rw [Stmt.relabelAll, s.relabel_eq_self h.1, Stmt.relabelAll_eq_self ss h.2]

lemma Block.relabel_eq_self : ∀ b : Block, (∀ k ∈ b.marks, ψ.mark k = k) → b.relabel ψ = b
  | .mk _ ss, h => by
    simp only [Block.marks, List.forall_mem_cons, Relabelling.mark_token, Mark.token.injEq] at h
    rw [Block.relabel, h.1, Stmt.relabelAll_eq_self ss h.2]

end

variable {φ : Relabelling}

lemma Identifier.map_relabel_relabel (ids : List Identifier) :
    (ids.map (Identifier.relabel ψ)).map (Identifier.relabel φ) =
      ids.map (Identifier.relabel (φ.comp ψ)) :=
  List.map_map

mutual

/-- Relabelling twice is relabelling once. -/
lemma Expr.relabel_relabel : ∀ e : Expr, (e.relabel ψ).relabel φ = e.relabel (φ.comp ψ)
  | .ident _ | .int _ _ | .str _ _ | .bool _ _ => rfl
  | .unary _ _ e => by simp only [Expr.relabel, e.relabel_relabel]; rfl
  | .binary _ _ left right => by
    simp only [Expr.relabel, left.relabel_relabel, right.relabel_relabel]
    rfl
  | .cond _ c b none => by
    simp only [Expr.relabel, c.relabel_relabel, b.relabel_relabel]
    rfl
  | .cond _ c b (some b') => by
    simp only [Expr.relabel, c.relabel_relabel, b.relabel_relabel, b'.relabel_relabel]
    rfl
  | .function _ ids b => by
    simp only [Expr.relabel, Identifier.map_relabel_relabel, b.relabel_relabel]
    rfl
  | .call _ callee args => by
    simp only [Expr.relabel, callee.relabel_relabel, Expr.relabelAll_relabelAll args]
    rfl
  | .array _ es => by
    simp only [Expr.relabel, Expr.relabelAll_relabelAll es]
    rfl
  | .index _ base index => by
    simp only [Expr.relabel, base.relabel_relabel, index.relabel_relabel]
    rfl

lemma Expr.relabelAll_relabelAll : ∀ es : List Expr,
    Expr.relabelAll φ (Expr.relabelAll ψ es) = Expr.relabelAll (φ.comp ψ) es
  | [] => rfl
  | e :: es => by simp only [Expr.relabelAll, e.relabel_relabel, Expr.relabelAll_relabelAll es]

lemma Stmt.relabel_relabel : ∀ s : Stmt, (s.relabel ψ).relabel φ = s.relabel (φ.comp ψ)
  | .bind _ _ e | .ret _ e | .expr _ e => by
    simp only [Stmt.relabel, e.relabel_relabel]
    rfl

lemma Stmt.relabelAll_relabelAll : ∀ ss : List Stmt,
    Stmt.relabelAll φ (Stmt.relabelAll ψ ss) = Stmt.relabelAll (φ.comp ψ) ss
  | [] => rfl
  | s :: ss => by simp only [Stmt.relabelAll, s.relabel_relabel, Stmt.relabelAll_relabelAll ss]

lemma Block.relabel_relabel : ∀ b : Block, (b.relabel ψ).relabel φ = b.relabel (φ.comp ψ)
  | .mk _ ss => by
    simp only [Block.relabel, Stmt.relabelAll_relabelAll ss]
    rfl

end

end

/-! ## Relabellings that keep what identifiers refer to -/

/-- The names of a new scope inside another: a call with these parameters opens it. -/
structure Relabelling.Opens (ψ : Relabelling) (outer : Set String) (params : List Identifier)
    (inner : Set String) : Prop where
  /-- No two names of the scope become the same. -/
  injOn : Set.InjOn ψ.name inner
  /-- The parameters belong to the scope. -/
  params_mem : ∀ id ∈ params, id.name ∈ inner
  /-- Every other name belongs to the scope around it. -/
  mem_outer : ∀ n ∈ inner, (∀ id ∈ params, id.name ≠ n) → n ∈ outer

mutual

/-- The expression can be relabelled in a scope: its own names are in the set of names of the
scope, and each function literal in it opens a scope for its body. -/
def Expr.Fits (ψ : Relabelling) : Expr → Set String → Prop
  | .ident id, scope => id.name ∈ scope
  | .int _ _, _ | .str _ _, _ | .bool _ _, _ => True
  | .unary _ _ operand, scope => operand.Fits ψ scope
  | .binary _ _ left right, scope => left.Fits ψ scope ∧ right.Fits ψ scope
  | .cond _ condition consequence none, scope =>
    condition.Fits ψ scope ∧ consequence.Fits ψ scope
  | .cond _ condition consequence (some alternative), scope =>
    condition.Fits ψ scope ∧ consequence.Fits ψ scope ∧ alternative.Fits ψ scope
  | .function _ params body, scope => ∃ inner, ψ.Opens scope params inner ∧ body.Fits ψ inner
  | .call _ callee args, scope => callee.Fits ψ scope ∧ Expr.FitAll ψ args scope
  | .array _ elements, scope => Expr.FitAll ψ elements scope
  | .index _ base index, scope => base.Fits ψ scope ∧ index.Fits ψ scope

/-- The expressions can be relabelled in a scope. -/
def Expr.FitAll (ψ : Relabelling) : List Expr → Set String → Prop
  | [], _ => True
  | e :: rest, scope => e.Fits ψ scope ∧ Expr.FitAll ψ rest scope

/-- The statement can be relabelled in a scope. -/
def Stmt.Fits (ψ : Relabelling) : Stmt → Set String → Prop
  | .bind _ id value, scope => id.name ∈ scope ∧ value.Fits ψ scope
  | .ret _ value, scope | .expr _ value, scope => value.Fits ψ scope

/-- The statements can be relabelled in a scope. -/
def Stmt.FitAll (ψ : Relabelling) : List Stmt → Set String → Prop
  | [], _ => True
  | s :: rest, scope => s.Fits ψ scope ∧ Stmt.FitAll ψ rest scope

/-- The block can be relabelled in a scope. -/
def Block.Fits (ψ : Relabelling) : Block → Set String → Prop
  | .mk _ statements, scope => Stmt.FitAll ψ statements scope

end

/-- The function literal can be relabelled in a scope. -/
def Lambda.Fits (ψ : Relabelling) (l : Lambda) (scope : Set String) : Prop :=
  ∃ inner, ψ.Opens scope l.params inner ∧ l.body.Fits ψ inner

/-- The program can be relabelled if these are the names of the outermost scope. -/
def Program.Fits (ψ : Relabelling) (p : Program) (scope : Set String) : Prop :=
  Stmt.FitAll ψ p.statements scope

section

variable {ψ : Relabelling} {scope : Set String}

lemma Expr.fits_cond {token : Token} {c : Expr} {b : Block} {b? : Option Block} :
    (Expr.cond token c b b?).Fits ψ scope ↔
      c.Fits ψ scope ∧ b.Fits ψ scope ∧ ∀ b' ∈ b?, b'.Fits ψ scope := by
  cases b? <;> simp [Expr.Fits]

lemma Relabelling.opens_self (hinj : Set.InjOn ψ.name scope) {params : List Identifier}
    (h : ∀ id ∈ params, id.name ∈ scope) : ψ.Opens scope params scope :=
  ⟨hinj, h, fun _ hn _ => hn⟩

mutual

/-- A tree can be relabelled if no two of all its names become the same. -/
lemma Expr.fits_of_marks (hinj : Set.InjOn ψ.name scope) :
    ∀ e : Expr, (∀ n, .name n ∈ e.marks → n ∈ scope) → e.Fits ψ scope
  | .ident id, h => h id.name (by simp [Expr.marks, Identifier.marks])
  | .int _ _, _ | .str _ _, _ | .bool _ _, _ => trivial
  | .unary _ _ e, h => e.fits_of_marks hinj fun n hn => h n (by simp [Expr.marks, hn])
  | .binary _ _ left right, h =>
    ⟨left.fits_of_marks hinj fun n hn => h n (by simp [Expr.marks, hn]),
      right.fits_of_marks hinj fun n hn => h n (by simp [Expr.marks, hn])⟩
  | .cond _ c b none, h =>
    ⟨c.fits_of_marks hinj fun n hn => h n (by simp [Expr.marks, hn]),
      b.fits_of_marks hinj fun n hn => h n (by simp [Expr.marks, hn])⟩
  | .cond _ c b (some b'), h =>
    ⟨c.fits_of_marks hinj fun n hn => h n (by simp [Expr.marks, hn]),
      b.fits_of_marks hinj fun n hn => h n (by simp [Expr.marks, hn]),
      b'.fits_of_marks hinj fun n hn => h n (by simp [Expr.marks, hn])⟩
  | .function _ ids b, h => by
    refine ⟨scope, ψ.opens_self hinj fun id hid => h id.name ?_,
      b.fits_of_marks hinj fun n hn => h n (by simp [Expr.marks, hn])⟩
    have hmark : .name id.name ∈ ids.flatMap Identifier.marks :=
      List.mem_flatMap_of_mem hid (by simp [Identifier.marks])
    simp [Expr.marks, hmark]
  | .call _ callee args, h =>
    ⟨callee.fits_of_marks hinj fun n hn => h n (by simp [Expr.marks, hn]),
      Expr.fitAll_of_marks hinj args fun n hn => h n (by simp [Expr.marks, hn])⟩
  | .array _ es, h => Expr.fitAll_of_marks hinj es fun n hn => h n (by simp [Expr.marks, hn])
  | .index _ base index, h =>
    ⟨base.fits_of_marks hinj fun n hn => h n (by simp [Expr.marks, hn]),
      index.fits_of_marks hinj fun n hn => h n (by simp [Expr.marks, hn])⟩

lemma Expr.fitAll_of_marks (hinj : Set.InjOn ψ.name scope) :
    ∀ es : List Expr, (∀ n, .name n ∈ Expr.marksAll es → n ∈ scope) → Expr.FitAll ψ es scope
  | [], _ => trivial
  | e :: es, h =>
    ⟨e.fits_of_marks hinj fun n hn => h n (by simp [Expr.marksAll, hn]),
      Expr.fitAll_of_marks hinj es fun n hn => h n (by simp [Expr.marksAll, hn])⟩

lemma Stmt.fits_of_marks (hinj : Set.InjOn ψ.name scope) :
    ∀ s : Stmt, (∀ n, .name n ∈ s.marks → n ∈ scope) → s.Fits ψ scope
  | .bind _ id e, h =>
    ⟨h id.name (by simp [Stmt.marks, Identifier.marks]),
      e.fits_of_marks hinj fun n hn => h n (by simp [Stmt.marks, hn])⟩
  | .ret _ e, h | .expr _ e, h => e.fits_of_marks hinj fun n hn => h n (by simp [Stmt.marks, hn])

lemma Stmt.fitAll_of_marks (hinj : Set.InjOn ψ.name scope) :
    ∀ ss : List Stmt, (∀ n, .name n ∈ Stmt.marksAll ss → n ∈ scope) → Stmt.FitAll ψ ss scope
  | [], _ => trivial
  | s :: ss, h =>
    ⟨s.fits_of_marks hinj fun n hn => h n (by simp [Stmt.marksAll, hn]),
      Stmt.fitAll_of_marks hinj ss fun n hn => h n (by simp [Stmt.marksAll, hn])⟩

lemma Block.fits_of_marks (hinj : Set.InjOn ψ.name scope) :
    ∀ b : Block, (∀ n, .name n ∈ b.marks → n ∈ scope) → b.Fits ψ scope
  | .mk _ ss, h => Stmt.fitAll_of_marks hinj ss fun n hn => h n (by simp [Block.marks, hn])

end

end

end Bhasha
