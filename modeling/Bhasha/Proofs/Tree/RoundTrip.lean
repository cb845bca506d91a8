import Bhasha.Proofs.Token.Spelling
import Bhasha.Proofs.Tree.Erasure
import Bhasha.Proofs.Tree.Faithful
import Bhasha.Proofs.Tree.Recognition

/-!
Rendering and reading again.

A tree that agrees with its tokens is written so that it can be read again: the text has no
faults, and its tree is the same but for places. The proof goes over the tree. Each piece of the
text is scanned by itself, since it ends where a token ends and nothing that is written behind it
could go on with it. The tokens of an expression are a phrase of the tightest level, since
whatever is looser is written in parentheses; so they can stand wherever the expression is written.
-/

namespace Bhasha

open Grammar Scanner Reader

/-- The tokens are an identifier that is the same but for places. -/
def Identifier.Reread (id : Identifier) (ts : List Token) : Prop :=
  ∃ id', Param ts id' ∧ id'.erase = id.erase

/-- The tokens are an expression that is the same but for places, of the tightest level. -/
def Expr.Reread (e : Expr) (ts : List Token) : Prop :=
  ∃ e', Phrase .call ts e' ∧ e'.erase = e.erase

/-- The tokens are a statement that is the same but for places, whatever follows it. -/
def Stmt.Reread (s : Stmt) (ts : List Token) : Prop :=
  ∃ s', (∀ next, Sentence next ts s') ∧ s'.erase = s.erase

/-- The tokens are a block that is the same but for places. -/
def Block.Reread (b : Block) (ts : List Token) : Prop :=
  ∃ b', Braced ts b' ∧ b'.erase = b.erase

lemma Expr.Reread.ne_nil {e : Expr} (ts : List Token) (h : e.Reread ts) : ts ≠ [] := by
  obtain ⟨e', he', -⟩ := h
  obtain ⟨t, us, rfl, -⟩ := he'.exists_cons
  exact List.cons_ne_nil t us

lemma Once.ne_nil {t : Token} (ts : List Token) (h : Once t ts) : ts ≠ [] := by
  obtain ⟨line, rfl⟩ := h
  exact List.cons_ne_nil _ _

/-! ## Identifiers and literals -/

lemma Token.Is.spells {t : Token} {k : Kind} (ht : t.Is k) (hk : k.isWord) :
    Spells Boundary t.literal.toList (Once t) :=
  .of_word ht.proper (ht.kind ▸ hk)

lemma Identifier.Faithful.spells {id : Identifier} (h : id.Faithful) :
    Spells Boundary id.name.toList id.Reread := by
  rw [h.name]
  refine (h.token.spells rfl).imp ?_
  rintro _ ⟨line, rfl⟩
  refine ⟨_, .mk h.token.kind, ?_⟩
  rw [Identifier.erase, Identifier.erase, h.name, Token.erase_on, Token.on_literal]

lemma spells_ident {id : Identifier} (h : id.Faithful) :
    Spells Boundary (Expr.ident id).render.toList (Expr.ident id).Reread := by
  refine h.spells.imp ?_
  rintro _ ⟨_, ⟨ht⟩, herase⟩
  exact ⟨_, .ident ht, congrArg Expr.ident herase⟩

lemma spells_int {t : Token} {n : Int64} (ht : t.Is .int)
    (hn : n.toInt = Number.ofDigits t.literal.toList) :
    Spells Boundary (Expr.int t n).render.toList (Expr.int t n).Reread := by
  refine (Spells.of_numeral ht.proper ht.kind).imp ?_
  rintro _ ⟨line, rfl⟩
  exact ⟨.int (t.on line) n, .int ht.kind hn, rfl⟩

lemma spells_str {t : Token} (ht : t.Is .str) :
    Spells Boundary (Expr.str t t.literal).render.toList (Expr.str t t.literal).Reread := by
  have htext : (Expr.str t t.literal).render.toList = '"' :: (t.literal.toList ++ ['"']) := by
    rw [Expr.render, String.toList_append, String.toList_append]
    rfl
  rw [htext]
  refine (Spells.of_text ht.proper ht.kind).before.imp ?_
  rintro _ ⟨line, rfl⟩
  exact ⟨.str (t.on line) t.literal, .str ht.kind, rfl⟩

lemma spells_true {t : Token} (ht : t.Is .kwTrue) :
    Spells Boundary (Expr.bool t true).render.toList (Expr.bool t true).Reread := by
  refine (ht.spells rfl).imp ?_
  rintro _ ⟨line, rfl⟩
  exact ⟨.bool (t.on line) true, .true ht.kind, rfl⟩

lemma spells_false {t : Token} (ht : t.Is .kwFalse) :
    Spells Boundary (Expr.bool t false).render.toList (Expr.bool t false).Reread := by
  refine (ht.spells rfl).imp ?_
  rintro _ ⟨line, rfl⟩
  exact ⟨.bool (t.on line) false, .false ht.kind, rfl⟩

/-! ## Operators -/

lemma sign_of_unaryOp? {k : Kind} {op : UnaryOp} (h : k.unaryOp? = some op) :
    k.isSign ∧ op.sign = k.name := by
  cases k <;> cases h <;> exact ⟨rfl, rfl⟩

lemma sign_of_binaryOp? {k : Kind} {op : BinaryOp} (h : k.binaryOp? = some op) :
    k.isSign ∧ op.sign = k.name ∧ k ≠ .assign ∧ k ≠ .bang := by
  cases k <;> cases h <;> exact ⟨rfl, rfl, by decide, by decide⟩

lemma spells_unary {t : Token} {op : UnaryOp} {e : Expr} (ht : t.Proper)
    (hop : t.kind.unaryOp? = some op) (he : Spells Boundary e.render.toList e.Reread) :
    Spells Boundary (Expr.unary t op e).render.toList (Expr.unary t op e).Reread := by
  obtain ⟨hsign, hname⟩ := sign_of_unaryOp? hop
  have htext : (Expr.unary t op e).render.toList = Kind.lparen.name.toList ++
      (t.literal.toList ++ (e.render.toList ++ Kind.rparen.name.toList)) := by
    rw [Expr.render, hname, ht.sign hsign]
    simp only [String.toList_append, List.append_assoc]
    rfl
  -- the operand does not make the sign longer
  have hrest : ∀ rest, Anything rest →
      NoEquals ((e.render.toList ++ Kind.rparen.name.toList) ++ rest) := by
    intro rest _
    rw [List.append_assoc]
    refine he.noEquals ?_ rfl
    rintro _ ⟨e', he', -⟩
    obtain ⟨u, us, rfl, hu⟩ := he'.exists_cons
    refine ⟨u, us, rfl, ?_, ?_⟩ <;> (intro hk; rw [hk] at hu; cases hu)
  have hoperand := he.append (.of_kind .rparen (by decide)) fun _ _ => rfl
  have hwhole := (Spells.of_sign ht hsign fun _ h _ => h).append hoperand hrest
  rw [htext]
  refine ((Spells.of_kind .lparen (by decide)).append hwhole fun _ _ => trivial).before.imp ?_
  rintro _ ⟨_, _, ⟨line, rfl⟩, ⟨_, _, ⟨line₁, rfl⟩, ⟨ts, _, ⟨e', he', herase⟩, ⟨line₂, rfl⟩, rfl⟩,
    rfl⟩, rfl⟩
  have hphrase : Phrase .unary (t.on line₁ :: ts) (.unary (t.on line₁) op e') :=
    .unary hop (by decide) he'
  refine ⟨.unary (t.on line₁) op e', .group rfl (.mk hphrase) rfl, ?_⟩
  rw [Expr.erase, Expr.erase, herase, Token.erase_on]

lemma spells_binary {t : Token} {op : BinaryOp} {left right : Expr} (ht : t.Proper)
    (hop : t.kind.binaryOp? = some op) (hleft : Spells Boundary left.render.toList left.Reread)
    (hright : Spells Boundary right.render.toList right.Reread) :
    Spells Boundary (Expr.binary t op left right).render.toList
      (Expr.binary t op left right).Reread := by
  obtain ⟨hsign, hname, hplain⟩ := sign_of_binaryOp? hop
  have htext : (Expr.binary t op left right).render.toList = Kind.lparen.name.toList ++
      (left.render.toList ++ (' ' :: t.literal.toList ++ (' ' :: right.render.toList ++
        Kind.rparen.name.toList))) := by
    rw [Expr.render, hname, ht.sign hsign]
    simp only [String.toList_append, List.append_assoc]
    rfl
  have hop' : Spells Anything (' ' :: t.literal.toList) (Once t) :=
    (Spells.of_sign ht hsign fun _ _ h => absurd h (not_or.2 hplain)).space Once.ne_nil
  -- the pieces from right to left: each may stand before all that is behind it
  have h₁ := (hright.space Expr.Reread.ne_nil).append (.of_kind .rparen (by decide)) fun _ _ => rfl
  have h₂ := hop'.append h₁ fun _ _ => trivial
  have h₃ := hleft.append h₂ fun _ _ => rfl
  rw [htext]
  refine ((Spells.of_kind .lparen (by decide)).append h₃ fun _ _ => trivial).before.imp ?_
  rintro _ ⟨_, _, ⟨line, rfl⟩, ⟨ts, _, ⟨left', hleft', heraseLeft⟩, ⟨_, _, ⟨line₁, rfl⟩,
    ⟨us, _, ⟨right', hright', heraseRight⟩, ⟨line₂, rfl⟩, rfl⟩, rfl⟩, rfl⟩, rfl⟩
  have hphrase : Phrase op.precedence (ts ++ t.on line₁ :: us)
      (.binary (t.on line₁) op left' right') :=
    .binary hop (Precedence.le_call _) hleft'
      (Nat.lt_trans op.precedence_lt_unary (by decide)) hright'
  have hgroup := Phrase.group (l := Kind.lparen.token.on line) (r := Kind.rparen.token.on line₂) rfl
    (.mk hphrase) rfl
  refine ⟨_, by simpa using hgroup, ?_⟩
  rw [Expr.erase, Expr.erase, heraseLeft, heraseRight, Token.erase_on]

/-- A sign is spelled by its name. -/
lemma Token.Is.literal {t : Token} {k : Kind} (ht : t.Is k) (hk : k.isSign) :
    t.literal = k.name := by
  rw [ht.proper.sign (ht.kind ▸ hk), ht.kind]

lemma Token.Is.spells_sign {t : Token} {k : Kind} (ht : t.Is k)
    (hk : k.isSign ∧ k ≠ .assign ∧ k ≠ .bang) : Spells Anything t.literal.toList (Once t) := by
  refine Spells.of_sign ht.proper (ht.kind ▸ hk.1) fun _ _ h => absurd h ?_
  rw [ht.kind]
  exact not_or.2 hk.2

lemma spells_index {t : Token} {base index : Expr} (ht : t.Is .lbracket)
    (hbase : Spells Boundary base.render.toList base.Reread)
    (hindex : Spells Boundary index.render.toList index.Reread) :
    Spells Boundary (Expr.index t base index).render.toList
      (Expr.index t base index).Reread := by
  have htext : (Expr.index t base index).render.toList = Kind.lparen.name.toList ++
      (base.render.toList ++ (t.literal.toList ++ (index.render.toList ++
        (Kind.rbracket.name.toList ++ Kind.rparen.name.toList)))) := by
    rw [Expr.render, ht.literal rfl]
    simp only [String.toList_append, List.append_assoc]
    rfl
  have h₁ := (Spells.of_kind .rbracket (by decide)).append (.of_kind .rparen (by decide))
    fun _ _ => trivial
  have h₂ := hindex.append h₁ fun _ _ => rfl
  have h₃ := (ht.spells_sign (by decide)).append h₂ fun _ _ => trivial
  have h₄ := hbase.append h₃ fun rest _ => by rw [ht.literal rfl]; rfl
  rw [htext]
  refine ((Spells.of_kind .lparen (by decide)).append h₄ fun _ _ => trivial).before.imp ?_
  rintro _ ⟨_, _, ⟨line, rfl⟩, ⟨ts, _, ⟨base', hbase', heraseBase⟩, ⟨_, _, ⟨line₁, rfl⟩,
    ⟨us, _, ⟨index', hindex', heraseIndex⟩, ⟨_, _, ⟨line₂, rfl⟩, ⟨line₃, rfl⟩, rfl⟩, rfl⟩, rfl⟩,
    rfl⟩, rfl⟩
  have hphrase := Phrase.index (l := t.on line₁) (r := Kind.rbracket.token.on line₂) hbase' ht.kind
    (.mk hindex') rfl
  have hgroup := Phrase.group (l := Kind.lparen.token.on line) (r := Kind.rparen.token.on line₃) rfl
    (.mk hphrase) rfl
  refine ⟨_, by simpa using hgroup, ?_⟩
  rw [Expr.erase, Expr.erase, heraseBase, heraseIndex, Token.erase_on]

/-! ## Lists -/

section Lists

variable {α : Type} {Item : List Token → α → Prop} (erase : α → α) (text : α → String)

/-- Items that can be read again by themselves can be read again as a list. -/
lemma spells_commaSeparated_cons (hne : ∀ ts y, Item ts y → ts ≠ []) {x : α} {xs : List α}
    (h : ∀ y ∈ x :: xs,
      Spells Boundary (text y).toList fun ts => ∃ y', Item ts y' ∧ erase y' = erase y) :
    Spells Boundary (Text.commaSeparated ((x :: xs).map text)).toList
      (Then (fun ts => ∃ y, Item ts y ∧ erase y = erase x)
        fun ts => ∃ ys, More Item ts ys ∧ ys.map erase = xs.map erase) := by
  induction xs generalizing x with
  | nil =>
    refine (h x List.mem_cons_self).imp fun ts hts => ?_
    exact ⟨ts, [], hts, ⟨[], .nil, rfl⟩, (List.append_nil ts).symm⟩
  | cons x' xs ih =>
    have htext : (Text.commaSeparated ((x :: x' :: xs).map text)).toList = (text x).toList ++
        (Kind.comma.name.toList ++ ' ' :: (Text.commaSeparated ((x' :: xs).map text)).toList) := by
      rw [List.map_cons, List.map_cons, Text.commaSeparated]
      simp only [String.toList_append, List.append_assoc]
      rfl
    have hrest := ih fun y hy => h y (List.mem_cons_of_mem x hy)
    have h₁ := hrest.space fun ts hts hnil => by
      obtain ⟨us, vs, ⟨y, hy, -⟩, -, rfl⟩ := hts
      exact hne us y hy (List.append_eq_nil_iff.1 hnil).1
    have h₂ := (Spells.of_kind .comma (by decide)).append h₁ fun _ _ => trivial
    rw [htext]
    refine ((h x List.mem_cons_self).append h₂ fun _ _ => rfl).imp ?_
    rintro _ ⟨ts, _, hx, ⟨_, _, ⟨line, rfl⟩, ⟨us, vs, ⟨y, hy, heraseY⟩, ⟨ys, hys, heraseYs⟩, rfl⟩,
      rfl⟩, rfl⟩
    have hcomma : (Kind.comma.token.on line).kind = .comma := rfl
    refine ⟨ts, _, hx, ⟨y :: ys, .cons hcomma hy hys, ?_⟩, rfl⟩
    rw [List.map_cons, List.map_cons, heraseY, heraseYs]

lemma spells_commaSeparated (hne : ∀ ts y, Item ts y → ts ≠ []) {xs : List α}
    (h : ∀ y ∈ xs,
      Spells Boundary (text y).toList fun ts => ∃ y', Item ts y' ∧ erase y' = erase y) :
    Spells Boundary (Text.commaSeparated (xs.map text)).toList
      fun ts => ∃ ys, Listed Item ts ys ∧ ys.map erase = xs.map erase := by
  cases xs with
  | nil => exact fun rest line _ => ⟨[], line, .nil, [], .nil, rfl⟩
  | cons x xs =>
    refine (spells_commaSeparated_cons erase text hne h).imp ?_
    rintro _ ⟨us, vs, ⟨y, hy, heraseY⟩, ⟨ys, hys, heraseYs⟩, rfl⟩
    refine ⟨y :: ys, .cons hy hys, ?_⟩
    rw [List.map_cons, List.map_cons, heraseY, heraseYs]

end Lists

lemma Expr.renderAll_eq_map (es : List Expr) : Expr.renderAll es = es.map Expr.render := by
  induction es with
  | nil => rfl
  | cons e es ih => rw [Expr.renderAll, ih, List.map_cons]

lemma spells_operands {es : List Expr}
    (h : ∀ e ∈ es, Spells Boundary e.render.toList e.Reread) :
    Spells Boundary (Text.commaSeparated (Expr.renderAll es)).toList
      fun ts => ∃ es', Listed Whole ts es' ∧ Expr.eraseAll es' = Expr.eraseAll es := by
  have hne : ∀ ts e, Whole ts e → ts ≠ [] := by
    intro ts e hts
    obtain ⟨t, us, rfl, -⟩ := hts.exists_cons
    exact List.cons_ne_nil t us
  have hlist := spells_commaSeparated Expr.erase Expr.render hne fun e he =>
    (h e he).imp fun ts ⟨e', he', herase⟩ => ⟨e', .mk he', herase⟩
  rw [Expr.renderAll_eq_map]
  refine hlist.imp ?_
  rintro ts ⟨es', hes', herase⟩
  exact ⟨es', hes', by rw [Expr.eraseAll_eq_map, Expr.eraseAll_eq_map, herase]⟩

lemma spells_parameters {ids : List Identifier} (h : ∀ id ∈ ids, id.Faithful) :
    Spells Boundary (Text.commaSeparated (ids.map Identifier.name)).toList
      fun ts => ∃ ids', Listed Param ts ids' ∧
        ids'.map Identifier.erase = ids.map Identifier.erase := by
  have hne : ∀ ts id, Param ts id → ts ≠ [] := by
    rintro _ _ ⟨_⟩
    exact List.cons_ne_nil _ _
  exact spells_commaSeparated Identifier.erase Identifier.name hne fun id hid => (h id hid).spells

lemma spells_call {t : Token} {callee : Expr} {args : List Expr} (ht : t.Is .lparen)
    (hcallee : Spells Boundary callee.render.toList callee.Reread)
    (hargs : ∀ e ∈ args, Spells Boundary e.render.toList e.Reread) :
    Spells Boundary (Expr.call t callee args).render.toList (Expr.call t callee args).Reread := by
  have htext : (Expr.call t callee args).render.toList = callee.render.toList ++
      (t.literal.toList ++ ((Text.commaSeparated (Expr.renderAll args)).toList ++
        Kind.rparen.name.toList)) := by
    rw [Expr.render, ht.literal rfl]
    simp only [String.toList_append, List.append_assoc]
    rfl
  have h₁ := (spells_operands hargs).append (.of_kind .rparen (by decide)) fun _ _ => rfl
  have h₂ := (ht.spells_sign (by decide)).append h₁ fun _ _ => trivial
  rw [htext]
  refine (hcallee.append h₂ fun rest _ => by rw [ht.literal rfl]; rfl).before.imp ?_
  rintro _ ⟨ts, _, ⟨callee', hcallee', heraseCallee⟩, ⟨_, _, ⟨line, rfl⟩,
    ⟨us, _, ⟨args', hargs', heraseArgs⟩, ⟨line₁, rfl⟩, rfl⟩, rfl⟩, rfl⟩
  refine ⟨_, .call (l := t.on line) (r := Kind.rparen.token.on line₁) hcallee' ht.kind hargs' rfl,
    ?_⟩
  rw [Expr.erase, Expr.erase, heraseCallee, heraseArgs, Token.erase_on]

lemma spells_array {t : Token} {es : List Expr} (ht : t.Is .lbracket)
    (hes : ∀ e ∈ es, Spells Boundary e.render.toList e.Reread) :
    Spells Boundary (Expr.array t es).render.toList (Expr.array t es).Reread := by
  have htext : (Expr.array t es).render.toList = t.literal.toList ++
      ((Text.commaSeparated (Expr.renderAll es)).toList ++ Kind.rbracket.name.toList) := by
    rw [Expr.render, ht.literal rfl]
    simp only [String.toList_append, List.append_assoc]
    rfl
  have h₁ := (spells_operands hes).append (.of_kind .rbracket (by decide)) fun _ _ => rfl
  rw [htext]
  refine ((ht.spells_sign (by decide)).append h₁ fun _ _ => trivial).before.imp ?_
  rintro _ ⟨_, _, ⟨line, rfl⟩, ⟨us, _, ⟨es', hes', herase⟩, ⟨line₁, rfl⟩, rfl⟩, rfl⟩
  refine ⟨_, .array (l := t.on line) (r := Kind.rbracket.token.on line₁) ht.kind hes' rfl, ?_⟩
  rw [Expr.erase, Expr.erase, herase, Token.erase_on]

/-! ## Blocks and what contains them -/

lemma Stmt.renderAll_eq_map (ss : List Stmt) : Stmt.renderAll ss = ss.map Stmt.render := by
  induction ss with
  | nil => rfl
  | cons s ss ih => rw [Stmt.renderAll, ih, List.map_cons]

/-- Statements that can be read again by themselves can be read again one after the other. -/
lemma spells_concat (text : Stmt → String) {ss : List Stmt}
    (h : ∀ s ∈ ss, Spells Anything (text s).toList s.Reread) :
    Spells Anything (Text.concat (ss.map text)).toList
      fun ts => ∃ ss', (∀ next, Sentences next ts ss') ∧ Stmt.eraseAll ss' = Stmt.eraseAll ss := by
  induction ss with
  | nil => exact fun rest line _ => ⟨[], line, .nil, [], fun _ => .nil, rfl⟩
  | cons s ss ih =>
    have htext : (Text.concat ((s :: ss).map text)).toList =
        (text s).toList ++ (Text.concat (ss.map text)).toList := by
      rw [List.map_cons, Text.concat, String.toList_append]
    have hrest := ih fun s' hs' => h s' (List.mem_cons_of_mem s hs')
    rw [htext]
    refine ((h s List.mem_cons_self).append hrest fun _ _ => trivial).imp ?_
    rintro _ ⟨ts, us, ⟨s', hs', heraseS⟩, ⟨ss', hss', heraseSs⟩, rfl⟩
    refine ⟨s' :: ss', fun next => .cons (hs' _) (hss' next), ?_⟩
    rw [Stmt.eraseAll, Stmt.eraseAll, heraseS, heraseSs]

lemma spells_block {t : Token} {ss : List Stmt} (ht : t.Is .lbrace)
    (hss : ∀ s ∈ ss, Spells Anything s.render.toList s.Reread) :
    Spells Anything (Block.mk t ss).render.toList (Block.mk t ss).Reread := by
  have htext : (Block.mk t ss).render.toList = t.literal.toList ++
      ((Text.concat (ss.map fun s => " " ++ s.render)).toList ++
        ' ' :: Kind.rbrace.name.toList) := by
    rw [Block.render, ht.literal rfl, Stmt.renderAll_eq_map, List.map_map]
    simp only [String.toList_append, List.append_assoc]
    rfl
  have hspaced : ∀ s ∈ ss, Spells Anything (" " ++ s.render).toList s.Reread := by
    intro s hs
    rw [String.toList_append]
    refine (hss s hs).space ?_
    rintro ts ⟨s', hs', -⟩
    obtain ⟨u, us, rfl, -⟩ := (hs' .eof).exists_cons
    exact List.cons_ne_nil u us
  have h₁ := (spells_concat _ hspaced).append
    ((Spells.of_kind .rbrace (by decide)).space Once.ne_nil) fun _ _ => trivial
  rw [htext]
  refine ((ht.spells_sign (by decide)).append h₁ fun _ _ => trivial).imp ?_
  rintro _ ⟨_, _, ⟨line, rfl⟩, ⟨ts, _, ⟨ss', hss', herase⟩, ⟨line₁, rfl⟩, rfl⟩, rfl⟩
  refine ⟨_, .mk (l := t.on line) (r := Kind.rbrace.token.on line₁) ht.kind (hss' .rbrace) rfl, ?_⟩
  rw [Block.erase, Block.erase, herase, Token.erase_on]

lemma Block.Reread.ne_nil {b : Block} (ts : List Token) (h : b.Reread ts) : ts ≠ [] := by
  obtain ⟨b', hb', -⟩ := h
  cases hb' with
  | mk _ _ _ => exact List.cons_ne_nil _ _

/-- A condition in its parentheses, behind a space. -/
lemma spells_condition {c : Expr} (hc : Spells Boundary c.render.toList c.Reread) :
    Spells Anything (' ' :: Kind.lparen.name.toList ++ (c.render.toList ++ Kind.rparen.name.toList))
      fun ts => ∃ l r us, l.kind = .lparen ∧ r.kind = .rparen ∧ c.Reread us ∧
        ts = l :: (us ++ [r]) := by
  have h₁ := hc.append (.of_kind .rparen (by decide)) fun _ _ => rfl
  refine (((Spells.of_kind .lparen (by decide)).space Once.ne_nil).append h₁
    fun _ _ => trivial).imp ?_
  rintro _ ⟨_, _, ⟨line, rfl⟩, ⟨us, _, hus, ⟨line₁, rfl⟩, rfl⟩, rfl⟩
  exact ⟨_, _, us, rfl, rfl, hus, rfl⟩

lemma spells_cond {t : Token} {c : Expr} {b : Block} (ht : t.Is .kwIf)
    (hc : Spells Boundary c.render.toList c.Reread)
    (hb : Spells Anything b.render.toList b.Reread) :
    Spells Boundary (Expr.cond t c b none).render.toList (Expr.cond t c b none).Reread := by
  have htext : (Expr.cond t c b none).render.toList = t.literal.toList ++
      ((' ' :: Kind.lparen.name.toList ++ (c.render.toList ++ Kind.rparen.name.toList)) ++
        ' ' :: b.render.toList) := by
    rw [Expr.render]
    simp only [String.toList_append, List.append_assoc]
    rfl
  have h₁ := (spells_condition hc).append (hb.space Block.Reread.ne_nil) fun _ _ => trivial
  rw [htext]
  refine ((ht.spells rfl).append h₁ fun _ _ => rfl).before.imp ?_
  rintro _ ⟨_, _, ⟨line, rfl⟩, ⟨_, us, ⟨l, r, ts, hl, hr, ⟨c', hc', heraseC⟩, rfl⟩,
    ⟨b', hb', heraseB⟩, rfl⟩, rfl⟩
  have hphrase := Phrase.cond (t := t.on line) ht.kind hl (.mk hc') hr hb'
  refine ⟨_, by simpa using hphrase, ?_⟩
  rw [Expr.erase, Expr.erase, heraseC, heraseB, Token.erase_on]

/-- The word that is written before the second branch of a conditional. -/
def elseToken : Token :=
  ⟨.kwElse, "else", 0⟩

lemma elseToken_is : elseToken.Is .kwElse := by
  have hword : IsWord elseToken.literal.toList :=
    ⟨'e', ['l', 's', 'e'], rfl, rfl, List.all_eq_true.1 rfl⟩
  refine ⟨⟨fun _ => ⟨hword, rfl⟩, fun h => ?_, fun h => ?_, fun h => ?_⟩, rfl⟩ <;> cases h

lemma spells_condElse {t : Token} {c : Expr} {b b' : Block} (ht : t.Is .kwIf)
    (hc : Spells Boundary c.render.toList c.Reread)
    (hb : Spells Anything b.render.toList b.Reread)
    (hb' : Spells Anything b'.render.toList b'.Reread) :
    Spells Boundary (Expr.cond t c b (some b')).render.toList
      (Expr.cond t c b (some b')).Reread := by
  have htext : (Expr.cond t c b (some b')).render.toList = t.literal.toList ++
      ((' ' :: Kind.lparen.name.toList ++ (c.render.toList ++ Kind.rparen.name.toList)) ++
        (' ' :: b.render.toList ++
          (' ' :: elseToken.literal.toList ++ ' ' :: b'.render.toList))) := by
    rw [Expr.render]
    simp only [String.toList_append, List.append_assoc]
    rfl
  have h₁ := ((elseToken_is.spells rfl).space Once.ne_nil).append (hb'.space Block.Reread.ne_nil)
    fun _ _ => rfl
  have h₂ := (hb.space Block.Reread.ne_nil).append h₁ fun _ _ => trivial
  have h₃ := (spells_condition hc).append h₂ fun _ _ => trivial
  rw [htext]
  refine ((ht.spells rfl).append h₃ fun _ _ => rfl).before.imp ?_
  rintro _ ⟨_, _, ⟨line, rfl⟩, ⟨_, _, ⟨l, r, ts, hl, hr, ⟨cond', hcond', heraseC⟩, rfl⟩,
    ⟨us, _, ⟨then', hthen', heraseThen⟩, ⟨_, vs, ⟨line₁, rfl⟩, ⟨else', helse', heraseElse⟩, rfl⟩,
    rfl⟩, rfl⟩, rfl⟩
  have hphrase := Phrase.condElse (t := t.on line) (e := elseToken.on line₁) ht.kind hl
    (.mk hcond') hr hthen' rfl helse'
  refine ⟨_, by simpa using hphrase, ?_⟩
  rw [Expr.erase, Expr.erase, heraseC, heraseThen, heraseElse, Token.erase_on]

lemma spells_function {t : Token} {ids : List Identifier} {b : Block} (ht : t.Is .kwFunction)
    (hids : ∀ id ∈ ids, id.Faithful) (hb : Spells Anything b.render.toList b.Reread) :
    Spells Boundary (Expr.function t ids b).render.toList (Expr.function t ids b).Reread := by
  have htext : (Expr.function t ids b).render.toList = t.literal.toList ++
      (Kind.lparen.name.toList ++ ((Text.commaSeparated (ids.map Identifier.name)).toList ++
        (Kind.rparen.name.toList ++ ' ' :: b.render.toList))) := by
    rw [Expr.render]
    simp only [String.toList_append, List.append_assoc]
    rfl
  have h₁ := (Spells.of_kind .rparen (by decide)).append (hb.space Block.Reread.ne_nil)
    fun _ _ => trivial
  have h₂ := (spells_parameters hids).append h₁ fun _ _ => rfl
  have h₃ := (Spells.of_kind .lparen (by decide)).append h₂ fun _ _ => trivial
  rw [htext]
  refine ((ht.spells rfl).append h₃ fun _ _ => rfl).before.imp ?_
  rintro _ ⟨_, _, ⟨line, rfl⟩, ⟨_, _, ⟨line₁, rfl⟩, ⟨ts, _, ⟨ids', hids', heraseIds⟩,
    ⟨_, us, ⟨line₂, rfl⟩, ⟨b', hb', heraseB⟩, rfl⟩, rfl⟩, rfl⟩, rfl⟩
  refine ⟨_, .function (t := t.on line) (l := Kind.lparen.token.on line₁)
    (r := Kind.rparen.token.on line₂) ht.kind rfl hids' rfl hb', ?_⟩
  rw [Expr.erase, Expr.erase, heraseIds, heraseB, Token.erase_on]

/-! ## Statements -/

lemma spells_bind {t : Token} {id : Identifier} {e : Expr} (ht : t.Is .kwLet) (hid : id.Faithful)
    (he : Spells Boundary e.render.toList e.Reread) :
    Spells Anything (Stmt.bind t id e).render.toList (Stmt.bind t id e).Reread := by
  have htext : (Stmt.bind t id e).render.toList = t.literal.toList ++ (' ' :: id.name.toList ++
      (' ' :: Kind.assign.name.toList ++ (' ' :: e.render.toList ++
        Kind.semicolon.name.toList))) := by
    rw [Stmt.render]
    simp only [String.toList_append, List.append_assoc]
    rfl
  have hassign : Spells NoEquals Kind.assign.name.toList (Once Kind.assign.token) :=
    .of_sign (Kind.proper_of_isSign rfl 0) rfl fun _ h _ => h
  have hname : Spells Boundary (' ' :: id.name.toList) id.Reread := by
    refine hid.spells.space ?_
    rintro _ ⟨_, ⟨_⟩, -⟩
    exact List.cons_ne_nil _ _
  have h₁ := (he.space Expr.Reread.ne_nil).append (.of_kind .semicolon (by decide)) fun _ _ => rfl
  have h₂ := (hassign.space Once.ne_nil).append h₁ fun _ _ => by simp [NoEquals]
  have h₃ := hname.append h₂ fun _ _ => rfl
  rw [htext]
  refine ((ht.spells rfl).append h₃ fun _ _ => rfl).imp ?_
  rintro _ ⟨_, _, ⟨line, rfl⟩, ⟨_, _, ⟨_, @⟨u, hu⟩, heraseId⟩, ⟨_, _, ⟨line₁, rfl⟩,
    ⟨ts, _, ⟨e', he', heraseE⟩, ⟨line₂, rfl⟩, rfl⟩, rfl⟩, rfl⟩, rfl⟩
  have hsentence : ∀ next, Sentence next (t.on line :: u :: Kind.assign.token.on line₁ ::
      (ts ++ [Kind.semicolon.token.on line₂])) (.bind (t.on line) ⟨u, u.literal⟩ e') :=
    fun next => .bind ht.kind hu rfl (.mk he') (.semicolon rfl)
  refine ⟨_, hsentence, ?_⟩
  rw [Stmt.erase, Stmt.erase, heraseId, heraseE, Token.erase_on]

lemma spells_ret {t : Token} {e : Expr} (ht : t.Is .kwReturn)
    (he : Spells Boundary e.render.toList e.Reread) :
    Spells Anything (Stmt.ret t e).render.toList (Stmt.ret t e).Reread := by
  have htext : (Stmt.ret t e).render.toList = t.literal.toList ++ (' ' :: e.render.toList ++
      Kind.semicolon.name.toList) := by
    rw [Stmt.render]
    simp only [String.toList_append, List.append_assoc]
    rfl
  have h₁ := (he.space Expr.Reread.ne_nil).append (.of_kind .semicolon (by decide)) fun _ _ => rfl
  rw [htext]
  refine ((ht.spells rfl).append h₁ fun _ _ => rfl).imp ?_
  rintro _ ⟨_, _, ⟨line, rfl⟩, ⟨ts, _, ⟨e', he', heraseE⟩, ⟨line₁, rfl⟩, rfl⟩, rfl⟩
  have hsentence : ∀ next, Sentence next
      (t.on line :: (ts ++ [Kind.semicolon.token.on line₁])) (.ret (t.on line) e') :=
    fun next => .ret ht.kind (.mk he') (.semicolon rfl)
  refine ⟨_, hsentence, ?_⟩
  rw [Stmt.erase, Stmt.erase, heraseE, Token.erase_on]

lemma spells_expr {t : Token} {e : Expr} (he : Spells Boundary e.render.toList e.Reread) :
    Spells Anything (Stmt.expr t e).render.toList (Stmt.expr t e).Reread := by
  have htext : (Stmt.expr t e).render.toList =
      e.render.toList ++ Kind.semicolon.name.toList := by
    rw [Stmt.render, String.toList_append]
    rfl
  rw [htext]
  refine (he.append (.of_kind .semicolon (by decide)) fun _ _ => rfl).imp ?_
  rintro _ ⟨_, _, ⟨e', he', herase⟩, ⟨line, rfl⟩, rfl⟩
  -- the statement keeps its first token, which need not be the one it kept before
  obtain ⟨u, us, rfl, -⟩ := he'.exists_cons
  refine ⟨.expr u e', fun next => .expr (.mk he')
    (.semicolon (t := Kind.semicolon.token.on line) rfl), ?_⟩
  rw [Stmt.erase, Stmt.erase, herase]

/-! ## Trees -/

mutual

/-- The text of an expression can be read again. -/
lemma Expr.Faithful.spells : ∀ {e : Expr}, e.Faithful → Spells Boundary e.render.toList e.Reread
  | _, .ident hid => spells_ident hid
  | _, .int ht hn => spells_int ht hn
  | _, .str ht => spells_str ht
  | _, .true ht => spells_true ht
  | _, .false ht => spells_false ht
  | _, .unary ht hop he => spells_unary ht hop he.spells
  | _, .binary ht hop hleft hright => spells_binary ht hop hleft.spells hright.spells
  | _, .cond ht hc hb => spells_cond ht hc.spells hb.spells
  | _, .condElse ht hc hb hb' => spells_condElse ht hc.spells hb.spells hb'.spells
  | _, .function ht hids hb => spells_function ht hids hb.spells
  | _, .call ht hcallee hargs => spells_call ht hcallee.spells fun e he => (hargs e he).spells
  | _, .array ht hes => spells_array ht fun e he => (hes e he).spells
  | _, .index ht hbase hindex => spells_index ht hbase.spells hindex.spells

/-- The text of a statement can be read again. -/
lemma Stmt.Faithful.spells : ∀ {s : Stmt}, s.Faithful → Spells Anything s.render.toList s.Reread
  | _, .bind ht hid he => spells_bind ht hid he.spells
  | _, .ret ht he => spells_ret ht he.spells
  | _, .expr he => spells_expr he.spells

/-- The text of a block can be read again. -/
lemma Block.Faithful.spells : ∀ {b : Block}, b.Faithful →
    Spells Anything b.render.toList b.Reread
  | _, .mk ht hss => spells_block ht fun s hs => (hss s hs).spells

end

/-- The tokens of a rendered program are a program that is the same but for places. -/
lemma Program.Faithful.derives {p : Program} (h : p.Faithful) :
    ∃ p', Derives (Scanner.ofString p.render).tokens.1 p' ∧ p'.erase = p.erase := by
  have htext : p.render.toList = (Text.concat (p.statements.map Stmt.render)).toList ++ [] := by
    rw [Program.render, Stmt.renderAll_eq_map, List.append_nil]
  obtain ⟨ts, line, hscan, ss, hss, herase⟩ :=
    spells_concat Stmt.render (fun s hs => (h s hs).spells) [] 1 trivial
  rw [← htext] at hscan
  refine ⟨⟨ss⟩, ?_, congrArg Program.mk herase⟩
  have htokens : (Scanner.ofString p.render).tokens.1 = ts := hscan.tokens_eq rfl
  rw [htokens]
  exact hss .eof

/-- Rendering what was read from a text, with or without faults, gives a text without faults. Read
again it is the same program but for places, and is rendered in the same way. -/
theorem Program.read_render (text : String) :
    (Program.read (Program.read text).1.render).2 = [] ∧
      (Program.read (Program.read text).1.render).1.erase = (Program.read text).1.erase ∧
      (Program.read (Program.read text).1.render).1.render = (Program.read text).1.render := by
  obtain ⟨p, hp, herase⟩ := (Program.faithful_read text).derives
  have hread := Program.read_eq_of_clean (clean_of_derives (Scanner.kind_last_tokens _) hp)
  rw [hread]
  refine ⟨rfl, herase, ?_⟩
  rw [← Program.render_erase p, herase, Program.render_erase]

end Bhasha
