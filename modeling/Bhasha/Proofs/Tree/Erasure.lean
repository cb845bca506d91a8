import Bhasha.Proofs.Token.Spelling
import Bhasha.Tree.Render

/-!
Trees without their places.

Erasing a tree forgets where its tokens stood, and which token an expression that is a statement
started with: parentheses leave no node, so that token can be a parenthesis of which nothing else
is left. All that a tree means, and all that is written when it is rendered, stays.
-/

namespace Bhasha

/-- The token without its line. -/
def Token.erase (t : Token) : Token :=
  t.on 0

@[simp] lemma Token.erase_on (t : Token) (line : Nat) : (t.on line).erase = t.erase := rfl

@[simp] lemma Token.erase_literal (t : Token) : t.erase.literal = t.literal := rfl

/-- The identifier without its line. -/
def Identifier.erase (id : Identifier) : Identifier :=
  ⟨id.token.erase, id.name⟩

mutual

/-- The expression without its places. -/
def Expr.erase : Expr → Expr
  | .ident id => .ident id.erase
  | .int token value => .int token.erase value
  | .str token value => .str token.erase value
  | .bool token value => .bool token.erase value
  | .unary token op operand => .unary token.erase op operand.erase
  | .binary token op left right => .binary token.erase op left.erase right.erase
  | .cond token condition consequence none =>
    .cond token.erase condition.erase consequence.erase none
  | .cond token condition consequence (some alternative) =>
    .cond token.erase condition.erase consequence.erase (some alternative.erase)
  | .function token params body => .function token.erase (params.map Identifier.erase) body.erase
  | .call token callee args => .call token.erase callee.erase (Expr.eraseAll args)
  | .array token elements => .array token.erase (Expr.eraseAll elements)
  | .index token base index => .index token.erase base.erase index.erase

/-- The expressions without their places. -/
def Expr.eraseAll : List Expr → List Expr
  | [] => []
  | e :: rest => e.erase :: Expr.eraseAll rest

/-- The statement without its places. -/
def Stmt.erase : Stmt → Stmt
  | .bind token id value => .bind token.erase id.erase value.erase
  | .ret token value => .ret token.erase value.erase
  | .expr _ value => .expr default value.erase

/-- The statements without their places. -/
def Stmt.eraseAll : List Stmt → List Stmt
  | [] => []
  | s :: rest => s.erase :: Stmt.eraseAll rest

/-- The block without its places. -/
def Block.erase : Block → Block
  | .mk token statements => .mk token.erase (Stmt.eraseAll statements)

end

/-- The program without its places. -/
def Program.erase (p : Program) : Program :=
  ⟨Stmt.eraseAll p.statements⟩

lemma Expr.eraseAll_eq_map (es : List Expr) : Expr.eraseAll es = es.map Expr.erase := by
  induction es with
  | nil => rfl
  | cons e es ih => exact congrArg (e.erase :: ·) ih

/-! ## Erasing and rendering -/

lemma Identifier.map_name_erase (ids : List Identifier) :
    (ids.map Identifier.erase).map Identifier.name = ids.map Identifier.name := by
  rw [List.map_map]
  rfl

mutual

/-- Nothing that is written is erased. -/
lemma Expr.render_erase : ∀ e : Expr, e.erase.render = e.render
  | .ident _ | .int _ _ | .str _ _ | .bool _ _ => rfl
  | .unary _ _ e => by
    rw [Expr.erase, Expr.render, Expr.render, e.render_erase]
  | .binary _ _ left right => by
    rw [Expr.erase, Expr.render, Expr.render, left.render_erase, right.render_erase]
  | .cond _ c b none => by
    rw [Expr.erase, Expr.render, Expr.render, c.render_erase, b.render_erase, Token.erase_literal]
  | .cond _ c b (some b') => by
    rw [Expr.erase, Expr.render, Expr.render, c.render_erase, b.render_erase, b'.render_erase,
      Token.erase_literal]
  | .function _ ids b => by
    rw [Expr.erase, Expr.render, Expr.render, Identifier.map_name_erase, b.render_erase,
      Token.erase_literal]
  | .call _ callee args => by
    rw [Expr.erase, Expr.render, Expr.render, callee.render_erase, Expr.renderAll_eraseAll]
  | .array _ es => by
    rw [Expr.erase, Expr.render, Expr.render, Expr.renderAll_eraseAll]
  | .index _ base index => by
    rw [Expr.erase, Expr.render, Expr.render, base.render_erase, index.render_erase]

lemma Expr.renderAll_eraseAll : ∀ es : List Expr,
    Expr.renderAll (Expr.eraseAll es) = Expr.renderAll es
  | [] => rfl
  | e :: es => by
    rw [Expr.eraseAll, Expr.renderAll, Expr.renderAll, e.render_erase, Expr.renderAll_eraseAll es]

lemma Stmt.render_erase : ∀ s : Stmt, s.erase.render = s.render
  | .bind _ _ e => by
    rw [Stmt.erase, Stmt.render, Stmt.render, e.render_erase, Token.erase_literal]
    rfl
  | .ret _ e => by
    rw [Stmt.erase, Stmt.render, Stmt.render, e.render_erase, Token.erase_literal]
  | .expr _ e => by
    rw [Stmt.erase, Stmt.render, Stmt.render, e.render_erase]

lemma Stmt.renderAll_eraseAll : ∀ ss : List Stmt,
    Stmt.renderAll (Stmt.eraseAll ss) = Stmt.renderAll ss
  | [] => rfl
  | s :: ss => by
    rw [Stmt.eraseAll, Stmt.renderAll, Stmt.renderAll, s.render_erase, Stmt.renderAll_eraseAll ss]

lemma Block.render_erase : ∀ b : Block, b.erase.render = b.render
  | .mk _ ss => by
    rw [Block.erase, Block.render, Block.render, Stmt.renderAll_eraseAll]

end

lemma Program.render_erase (p : Program) : p.erase.render = p.render :=
  congrArg Text.concat (Stmt.renderAll_eraseAll p.statements)

end Bhasha
