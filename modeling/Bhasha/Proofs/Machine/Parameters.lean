import Bhasha.Proofs.Machine.Commutation

/-!
Parameters can be renamed.

In one function literal of a program a parameter is renamed, and with it every identifier of that
name inside the literal. If the new name occurs nowhere in the program, the two programs do the
same.

The way from the second program back to the first is a relabelling of the whole program, since the
new name occurs where the old one was replaced and nowhere else. It makes one name out of two.
But inside the literal the old name does not occur, and outside the new one does not, so in no
scope do the two meet.
-/

namespace Bhasha

/-! ## One name in place of another -/

/-- Identifiers of one name get another. -/
def Relabelling.substitute (x y : String) : Relabelling where
  token t := if t.kind = .ident ∧ t.literal = x then { t with literal := y } else t
  name n := if n = x then y else n
  line := id
  line_token t := by split <;> rfl

/-- The mark is the name, or the token of an identifier of that name. -/
def Mark.Mentions (n : String) : Mark → Prop
  | .token t => t.kind = .ident ∧ t.literal = n
  | .name k => k = n

instance (n : String) (k : Mark) : Decidable (k.Mentions n) :=
  match k with
  | .token t => inferInstanceAs (Decidable (t.kind = .ident ∧ t.literal = n))
  | .name k => inferInstanceAs (Decidable (k = n))

/-- The name occurs in the program. -/
def Program.Mentions (p : Program) (n : String) : Prop :=
  ∃ k ∈ p.marks, k.Mentions n

instance (p : Program) (n : String) : Decidable (p.Mentions n) :=
  inferInstanceAs (Decidable (∃ k ∈ p.marks, k.Mentions n))

namespace Relabelling

variable {x y : String}

lemma mark_substitute_of_not_mentions {k : Mark} (h : ¬ k.Mentions x) :
    (substitute x y).mark k = k := by
  cases k with
  | token t => exact congrArg Mark.token (if_neg h)
  | name n => exact congrArg Mark.name (if_neg h)

/-- Putting the old name back where a new one was put in. -/
lemma mark_substitute_substitute {k : Mark} (h : ¬ k.Mentions y) :
    ((substitute y x).comp (substitute x y)).mark k = k := by
  cases k with
  | token t =>
    obtain ⟨kind, literal, line⟩ := t
    refine congrArg Mark.token ?_
    show (substitute y x).token ((substitute x y).token ⟨kind, literal, line⟩) = _
    by_cases hx : kind = .ident ∧ literal = x
    · obtain ⟨rfl, rfl⟩ := hx
      simp [substitute]
    · have hkeep : (substitute x y).token ⟨kind, literal, line⟩ = ⟨kind, literal, line⟩ := if_neg hx
      rw [hkeep]
      exact if_neg h
  | name n =>
    refine congrArg Mark.name ?_
    show (substitute y x).name ((substitute x y).name n) = n
    by_cases hx : n = x
    · simp [substitute, hx]
    · have hkeep : (substitute x y).name n = n := if_neg hx
      rw [hkeep]
      exact if_neg h

lemma name_substitute_ne (hne : x ≠ y) (n : String) : (substitute x y).name n ≠ x := by
  show (if n = x then y else n) ≠ x
  split
  · exact hne.symm
  · assumption

/-- Of two names that become one, a scope with only one of them is not affected. -/
lemma injOn_substitute : Set.InjOn (substitute y x).name {n | n ≠ x} := by
  intro n hn k hk heq
  change (if n = y then x else n) = if k = y then x else k at heq
  split at heq
  · next hny =>
    split at heq
    · next hky => rw [hny, hky]
    · exact absurd heq.symm hk
  · split at heq
    · exact absurd heq hn
    · exact heq

end Relabelling

/-! ## One function literal in place of another -/

mutual

/-- The second expression is the first with another function literal in one place. -/
inductive Expr.Replaces (R : Lambda → Lambda → Prop) : Expr → Expr → Prop
  | here {t t' : Token} {ids ids' : List Identifier} {b b' : Block} :
      R ⟨t, ids, b⟩ ⟨t', ids', b'⟩ → Expr.Replaces R (.function t ids b) (.function t' ids' b')
  | operand {t : Token} {op : UnaryOp} {e e' : Expr} :
      Expr.Replaces R e e' → Expr.Replaces R (.unary t op e) (.unary t op e')
  | left {t : Token} {op : BinaryOp} {e e' right : Expr} :
      Expr.Replaces R e e' → Expr.Replaces R (.binary t op e right) (.binary t op e' right)
  | right {t : Token} {op : BinaryOp} {left e e' : Expr} :
      Expr.Replaces R e e' → Expr.Replaces R (.binary t op left e) (.binary t op left e')
  | condition {t : Token} {e e' : Expr} {b : Block} {b? : Option Block} :
      Expr.Replaces R e e' → Expr.Replaces R (.cond t e b b?) (.cond t e' b b?)
  | consequence {t : Token} {c : Expr} {b b' : Block} {b? : Option Block} :
      Block.Replaces R b b' → Expr.Replaces R (.cond t c b b?) (.cond t c b' b?)
  | alternative {t : Token} {c : Expr} {b₀ b b' : Block} :
      Block.Replaces R b b' → Expr.Replaces R (.cond t c b₀ (some b)) (.cond t c b₀ (some b'))
  | body {t : Token} {ids : List Identifier} {b b' : Block} :
      Block.Replaces R b b' → Expr.Replaces R (.function t ids b) (.function t ids b')
  | callee {t : Token} {e e' : Expr} {args : List Expr} :
      Expr.Replaces R e e' → Expr.Replaces R (.call t e args) (.call t e' args)
  | args {t : Token} {callee : Expr} {es es' : List Expr} :
      Expr.ReplacesIn R es es' → Expr.Replaces R (.call t callee es) (.call t callee es')
  | elements {t : Token} {es es' : List Expr} :
      Expr.ReplacesIn R es es' → Expr.Replaces R (.array t es) (.array t es')
  | base {t : Token} {e e' index : Expr} :
      Expr.Replaces R e e' → Expr.Replaces R (.index t e index) (.index t e' index)
  | index {t : Token} {base e e' : Expr} :
      Expr.Replaces R e e' → Expr.Replaces R (.index t base e) (.index t base e')

/-- The expressions are the same but for a function literal in one of them. -/
inductive Expr.ReplacesIn (R : Lambda → Lambda → Prop) : List Expr → List Expr → Prop
  | head {e e' : Expr} {es : List Expr} :
      Expr.Replaces R e e' → Expr.ReplacesIn R (e :: es) (e' :: es)
  | tail {e : Expr} {es es' : List Expr} :
      Expr.ReplacesIn R es es' → Expr.ReplacesIn R (e :: es) (e :: es')

/-- The second statement is the first with another function literal in one place. -/
inductive Stmt.Replaces (R : Lambda → Lambda → Prop) : Stmt → Stmt → Prop
  | bind {t : Token} {id : Identifier} {e e' : Expr} :
      Expr.Replaces R e e' → Stmt.Replaces R (.bind t id e) (.bind t id e')
  | ret {t : Token} {e e' : Expr} :
      Expr.Replaces R e e' → Stmt.Replaces R (.ret t e) (.ret t e')
  | expr {t : Token} {e e' : Expr} :
      Expr.Replaces R e e' → Stmt.Replaces R (.expr t e) (.expr t e')

/-- The statements are the same but for a function literal in one of them. -/
inductive Stmt.ReplacesIn (R : Lambda → Lambda → Prop) : List Stmt → List Stmt → Prop
  | head {s s' : Stmt} {ss : List Stmt} :
      Stmt.Replaces R s s' → Stmt.ReplacesIn R (s :: ss) (s' :: ss)
  | tail {s : Stmt} {ss ss' : List Stmt} :
      Stmt.ReplacesIn R ss ss' → Stmt.ReplacesIn R (s :: ss) (s :: ss')

/-- The second block is the first with another function literal in one place. -/
inductive Block.Replaces (R : Lambda → Lambda → Prop) : Block → Block → Prop
  | mk {t : Token} {ss ss' : List Stmt} :
      Stmt.ReplacesIn R ss ss' → Block.Replaces R (.mk t ss) (.mk t ss')

end

/-- The first function literal has a parameter of one name, and in the second all identifiers of
that name have the other. -/
def Lambda.RenamesParameter (x y : String) (l l' : Lambda) : Prop :=
  (∃ id ∈ l.params, id.name = x) ∧ l' = l.relabel (.substitute x y)

/-- In one function literal of the program a parameter is renamed. -/
def Program.RenamesParameter (x y : String) (p p' : Program) : Prop :=
  Stmt.ReplacesIn (Lambda.RenamesParameter x y) p.statements p'.statements

/-! ## The way back -/

/-- The relabelling leaves certain marks as they are, whose names are in a set, and in trees with
these marks it undoes the replacement of a function literal. -/
structure Relabelling.Undoes (φ : Relabelling) (R : Lambda → Lambda → Prop) (P : Mark → Prop)
    (scope : Set String) : Prop where
  mark_eq : ∀ k, P k → φ.mark k = k
  name_mem : ∀ n, P (.name n) → n ∈ scope
  injOn : Set.InjOn φ.name scope
  literal : ∀ l l', R l l' → (∀ k ∈ l.toExpr.marks, P k) → l'.relabel φ = l ∧ l'.Fits φ scope

section

variable {R : Lambda → Lambda → Prop} {φ : Relabelling} {P : Mark → Prop} {scope : Set String}

lemma Relabelling.Undoes.token_eq (hφ : φ.Undoes R P scope) {t : Token} (ht : P (.token t)) :
    φ.token t = t :=
  Mark.token.inj (hφ.mark_eq _ ht)

lemma Relabelling.Undoes.ident (hφ : φ.Undoes R P scope) {id : Identifier}
    (hid : ∀ k ∈ id.marks, P k) : id.relabel φ = id ∧ id.name ∈ scope :=
  ⟨id.relabel_eq_self fun k hk => hφ.mark_eq k (hid k hk),
    hφ.name_mem _ (hid _ (by simp [Identifier.marks]))⟩

lemma Relabelling.Undoes.expr (hφ : φ.Undoes R P scope) {e : Expr} (he : ∀ k ∈ e.marks, P k) :
    e.relabel φ = e ∧ e.Fits φ scope :=
  ⟨e.relabel_eq_self fun k hk => hφ.mark_eq k (he k hk),
    e.fits_of_marks hφ.injOn fun n hn => hφ.name_mem n (he _ hn)⟩

lemma Relabelling.Undoes.exprs (hφ : φ.Undoes R P scope) {es : List Expr}
    (hes : ∀ k ∈ Expr.marksAll es, P k) :
    Expr.relabelAll φ es = es ∧ Expr.FitAll φ es scope :=
  ⟨Expr.relabelAll_eq_self es fun k hk => hφ.mark_eq k (hes k hk),
    Expr.fitAll_of_marks hφ.injOn es fun n hn => hφ.name_mem n (hes _ hn)⟩

lemma Relabelling.Undoes.stmt (hφ : φ.Undoes R P scope) {s : Stmt} (hs : ∀ k ∈ s.marks, P k) :
    s.relabel φ = s ∧ s.Fits φ scope :=
  ⟨s.relabel_eq_self fun k hk => hφ.mark_eq k (hs k hk),
    s.fits_of_marks hφ.injOn fun n hn => hφ.name_mem n (hs _ hn)⟩

lemma Relabelling.Undoes.stmts (hφ : φ.Undoes R P scope) {ss : List Stmt}
    (hss : ∀ k ∈ Stmt.marksAll ss, P k) :
    Stmt.relabelAll φ ss = ss ∧ Stmt.FitAll φ ss scope :=
  ⟨Stmt.relabelAll_eq_self ss fun k hk => hφ.mark_eq k (hss k hk),
    Stmt.fitAll_of_marks hφ.injOn ss fun n hn => hφ.name_mem n (hss _ hn)⟩

lemma Relabelling.Undoes.block (hφ : φ.Undoes R P scope) {b : Block} (hb : ∀ k ∈ b.marks, P k) :
    b.relabel φ = b ∧ b.Fits φ scope :=
  ⟨b.relabel_eq_self fun k hk => hφ.mark_eq k (hb k hk),
    b.fits_of_marks hφ.injOn fun n hn => hφ.name_mem n (hb _ hn)⟩

lemma Relabelling.Undoes.block? (hφ : φ.Undoes R P scope) {b? : Option Block}
    (hb : ∀ b ∈ b?, ∀ k ∈ b.marks, P k) :
    b?.map (Block.relabel φ) = b? ∧ ∀ b ∈ b?, b.Fits φ scope := by
  refine ⟨?_, fun b hmem => (hφ.block (hb b hmem)).2⟩
  cases b? with
  | none => rfl
  | some b => exact congrArg some (hφ.block (hb b rfl)).1

lemma Relabelling.Undoes.params (hφ : φ.Undoes R P scope) {ids : List Identifier}
    (hids : ∀ k ∈ ids.flatMap Identifier.marks, P k) :
    ids.map (Identifier.relabel φ) = ids ∧ φ.Opens scope ids scope := by
  refine ⟨Identifier.map_relabel_eq_self fun k hk => hφ.mark_eq k (hids k hk),
    φ.opens_self hφ.injOn fun id hid => (hφ.ident fun k hk => hids k ?_).2⟩
  exact List.mem_flatMap_of_mem hid hk

mutual

/-- What holds of the function literal that was replaced holds of the whole tree: the way back leads
to the first tree, and no binding changes its meaning on it. -/
lemma Expr.Replaces.restores (hφ : φ.Undoes R P scope) : ∀ {e e' : Expr}, Expr.Replaces R e e' →
    (∀ k ∈ e.marks, P k) → e'.relabel φ = e ∧ e'.Fits φ scope
  | _, _, .here h, hmarks => by
    obtain ⟨heq, hfits⟩ := hφ.literal _ _ h hmarks
    exact ⟨congrArg Lambda.toExpr heq, hfits⟩
  | _, _, .operand h, hmarks => by
    simp only [Expr.marks, List.forall_mem_cons] at hmarks
    obtain ⟨heq, hfits⟩ := h.restores hφ hmarks.2
    exact ⟨by rw [Expr.relabel, hφ.token_eq hmarks.1, heq], hfits⟩
  | _, _, .left h, hmarks => by
    simp only [Expr.marks, List.forall_mem_cons, List.forall_mem_append] at hmarks
    obtain ⟨ht, hl, hr⟩ := hmarks
    obtain ⟨heq, hfits⟩ := h.restores hφ hl
    obtain ⟨hright, hfits'⟩ := hφ.expr hr
    exact ⟨by rw [Expr.relabel, hφ.token_eq ht, heq, hright], hfits, hfits'⟩
  | _, _, .right h, hmarks => by
    simp only [Expr.marks, List.forall_mem_cons, List.forall_mem_append] at hmarks
    obtain ⟨ht, hl, hr⟩ := hmarks
    obtain ⟨heq, hfits⟩ := h.restores hφ hr
    obtain ⟨hleft, hfits'⟩ := hφ.expr hl
    exact ⟨by rw [Expr.relabel, hφ.token_eq ht, heq, hleft], hfits', hfits⟩
  | _, _, .condition h, hmarks => by
    obtain ⟨ht, hc, hb, halt⟩ := Expr.forall_marks_cond.1 hmarks
    obtain ⟨heq, hfits⟩ := h.restores hφ hc
    obtain ⟨hcons, hfits'⟩ := hφ.block hb
    obtain ⟨hother, hfits''⟩ := hφ.block? halt
    exact ⟨by rw [Expr.relabel_cond, hφ.token_eq ht, heq, hcons, hother],
      Expr.fits_cond.2 ⟨hfits, hfits', hfits''⟩⟩
  | _, _, .consequence h, hmarks => by
    obtain ⟨ht, hc, hb, halt⟩ := Expr.forall_marks_cond.1 hmarks
    obtain ⟨heq, hfits⟩ := h.restores hφ hb
    obtain ⟨hcond, hfits'⟩ := hφ.expr hc
    obtain ⟨hother, hfits''⟩ := hφ.block? halt
    exact ⟨by rw [Expr.relabel_cond, hφ.token_eq ht, heq, hcond, hother],
      Expr.fits_cond.2 ⟨hfits', hfits, hfits''⟩⟩
  | _, _, .alternative h, hmarks => by
    obtain ⟨ht, hc, hb, halt⟩ := Expr.forall_marks_cond.1 hmarks
    obtain ⟨heq, hfits⟩ := h.restores hφ (halt _ rfl)
    obtain ⟨hcond, hfits'⟩ := hφ.expr hc
    obtain ⟨hcons, hfits''⟩ := hφ.block hb
    exact ⟨by rw [Expr.relabel, hφ.token_eq ht, heq, hcond, hcons], hfits', hfits'', hfits⟩
  | _, _, .body h, hmarks => by
    simp only [Expr.marks, List.forall_mem_cons, List.forall_mem_append] at hmarks
    obtain ⟨ht, hids, hb⟩ := hmarks
    obtain ⟨heq, hfits⟩ := h.restores hφ hb
    obtain ⟨hparams, hopens⟩ := hφ.params hids
    exact ⟨by rw [Expr.relabel, hφ.token_eq ht, hparams, heq], scope, hopens, hfits⟩
  | _, _, .callee h, hmarks => by
    simp only [Expr.marks, List.forall_mem_cons, List.forall_mem_append] at hmarks
    obtain ⟨ht, hf, hes⟩ := hmarks
    obtain ⟨heq, hfits⟩ := h.restores hφ hf
    obtain ⟨hargs, hfits'⟩ := hφ.exprs hes
    exact ⟨by rw [Expr.relabel, hφ.token_eq ht, heq, hargs], hfits, hfits'⟩
  | _, _, .args h, hmarks => by
    simp only [Expr.marks, List.forall_mem_cons, List.forall_mem_append] at hmarks
    obtain ⟨ht, hf, hes⟩ := hmarks
    obtain ⟨heq, hfits⟩ := h.restores hφ hes
    obtain ⟨hcallee, hfits'⟩ := hφ.expr hf
    exact ⟨by rw [Expr.relabel, hφ.token_eq ht, heq, hcallee], hfits', hfits⟩
  | _, _, .elements h, hmarks => by
    simp only [Expr.marks, List.forall_mem_cons] at hmarks
    obtain ⟨heq, hfits⟩ := h.restores hφ hmarks.2
    exact ⟨by rw [Expr.relabel, hφ.token_eq hmarks.1, heq], hfits⟩
  | _, _, .base h, hmarks => by
    simp only [Expr.marks, List.forall_mem_cons, List.forall_mem_append] at hmarks
    obtain ⟨ht, hb, hi⟩ := hmarks
    obtain ⟨heq, hfits⟩ := h.restores hφ hb
    obtain ⟨hindex, hfits'⟩ := hφ.expr hi
    exact ⟨by rw [Expr.relabel, hφ.token_eq ht, heq, hindex], hfits, hfits'⟩
  | _, _, .index h, hmarks => by
    simp only [Expr.marks, List.forall_mem_cons, List.forall_mem_append] at hmarks
    obtain ⟨ht, hb, hi⟩ := hmarks
    obtain ⟨heq, hfits⟩ := h.restores hφ hi
    obtain ⟨hbase, hfits'⟩ := hφ.expr hb
    exact ⟨by rw [Expr.relabel, hφ.token_eq ht, heq, hbase], hfits', hfits⟩

lemma Expr.ReplacesIn.restores (hφ : φ.Undoes R P scope) : ∀ {es es' : List Expr},
    Expr.ReplacesIn R es es' → (∀ k ∈ Expr.marksAll es, P k) →
      Expr.relabelAll φ es' = es ∧ Expr.FitAll φ es' scope
  | _, _, .head h, hmarks => by
    simp only [Expr.marksAll, List.forall_mem_append] at hmarks
    obtain ⟨heq, hfits⟩ := h.restores hφ hmarks.1
    obtain ⟨hrest, hfits'⟩ := hφ.exprs hmarks.2
    exact ⟨by rw [Expr.relabelAll, heq, hrest], hfits, hfits'⟩
  | _, _, .tail h, hmarks => by
    simp only [Expr.marksAll, List.forall_mem_append] at hmarks
    obtain ⟨heq, hfits⟩ := h.restores hφ hmarks.2
    obtain ⟨hfirst, hfits'⟩ := hφ.expr hmarks.1
    exact ⟨by rw [Expr.relabelAll, heq, hfirst], hfits', hfits⟩

lemma Stmt.Replaces.restores (hφ : φ.Undoes R P scope) : ∀ {s s' : Stmt}, Stmt.Replaces R s s' →
    (∀ k ∈ s.marks, P k) → s'.relabel φ = s ∧ s'.Fits φ scope
  | _, _, .bind h, hmarks => by
    simp only [Stmt.marks, List.forall_mem_cons, List.forall_mem_append] at hmarks
    obtain ⟨ht, hid, he⟩ := hmarks
    obtain ⟨heq, hfits⟩ := h.restores hφ he
    obtain ⟨hself, hmem⟩ := hφ.ident hid
    exact ⟨by rw [Stmt.relabel, hφ.token_eq ht, hself, heq], hmem, hfits⟩
  | _, _, .ret h, hmarks | _, _, .expr h, hmarks => by
    simp only [Stmt.marks, List.forall_mem_cons] at hmarks
    obtain ⟨heq, hfits⟩ := h.restores hφ hmarks.2
    exact ⟨by rw [Stmt.relabel, hφ.token_eq hmarks.1, heq], hfits⟩

lemma Stmt.ReplacesIn.restores (hφ : φ.Undoes R P scope) : ∀ {ss ss' : List Stmt},
    Stmt.ReplacesIn R ss ss' → (∀ k ∈ Stmt.marksAll ss, P k) →
      Stmt.relabelAll φ ss' = ss ∧ Stmt.FitAll φ ss' scope
  | _, _, .head h, hmarks => by
    simp only [Stmt.marksAll, List.forall_mem_append] at hmarks
    obtain ⟨heq, hfits⟩ := h.restores hφ hmarks.1
    obtain ⟨hrest, hfits'⟩ := hφ.stmts hmarks.2
    exact ⟨by rw [Stmt.relabelAll, heq, hrest], hfits, hfits'⟩
  | _, _, .tail h, hmarks => by
    simp only [Stmt.marksAll, List.forall_mem_append] at hmarks
    obtain ⟨heq, hfits⟩ := h.restores hφ hmarks.2
    obtain ⟨hfirst, hfits'⟩ := hφ.stmt hmarks.1
    exact ⟨by rw [Stmt.relabelAll, heq, hfirst], hfits', hfits⟩

lemma Block.Replaces.restores (hφ : φ.Undoes R P scope) : ∀ {b b' : Block}, Block.Replaces R b b' →
    (∀ k ∈ b.marks, P k) → b'.relabel φ = b ∧ b'.Fits φ scope
  | _, _, .mk h, hmarks => by
    simp only [Block.marks, List.forall_mem_cons] at hmarks
    obtain ⟨heq, hfits⟩ := h.restores hφ hmarks.2
    exact ⟨by rw [Block.relabel, hφ.token_eq hmarks.1, heq], hfits⟩

end

end

/-- A renamed parameter is undone by putting the old name back: inside the literal the old name does
not occur, and the new one is bound by it. -/
lemma Lambda.RenamesParameter.restores {x y : String} {l l' : Lambda}
    (h : l.RenamesParameter x y l') (hy : ∀ k ∈ l.toExpr.marks, ¬ k.Mentions y) :
    l'.relabel (.substitute y x) = l ∧ l'.Fits (.substitute y x) {n | n ≠ y} := by
  obtain ⟨⟨id, hid, rfl⟩, rfl⟩ := h
  obtain ⟨t, ids, b⟩ := l
  set x := id.name
  have hparam : ∀ k ∈ id.marks, k ∈ (Expr.function t ids b).marks := fun k hk =>
    List.mem_cons_of_mem _ (List.mem_append_left _ (List.mem_flatMap_of_mem hid hk))
  have hne : x ≠ y := hy (.name x) (hparam _ (by simp [Identifier.marks, x]))
  constructor
  · refine Lambda.eq_of_toExpr_eq ?_
    rw [Lambda.toExpr_relabel, Lambda.toExpr_relabel, Expr.relabel_relabel]
    exact Expr.relabel_eq_self _ fun k hk => Relabelling.mark_substitute_substitute (hy k hk)
  · refine ⟨{n | n ≠ x}, ⟨Relabelling.injOn_substitute, ?_, ?_⟩, ?_⟩
    · intro id' hid'
      obtain ⟨id₀, -, rfl⟩ := List.mem_map.1 hid'
      exact Relabelling.name_substitute_ne hne id₀.name
    · -- the new name is a parameter
      rintro n - hn rfl
      refine hn _ (List.mem_map_of_mem hid) ?_
      simp [Identifier.relabel, Relabelling.substitute, x]
    · refine Block.fits_of_marks Relabelling.injOn_substitute _ fun n hn => ?_
      rw [Lambda.relabel, Block.marks_relabel] at hn
      obtain ⟨k, -, hk⟩ := List.mem_map.1 hn
      cases k with
      | token t => cases hk
      | name k =>
        obtain rfl := Mark.name.inj hk
        exact Relabelling.name_substitute_ne hne k

lemma Program.RenamesParameter.restores {x y : String} {p p' : Program}
    (h : p.RenamesParameter x y p') (hy : ¬ p.Mentions y) :
    p'.relabel (.substitute y x) = p ∧ p'.Fits (.substitute y x) {n | n ≠ y} := by
  have hundoes : (Relabelling.substitute y x).Undoes (Lambda.RenamesParameter x y)
      (fun k => ¬ k.Mentions y) {n | n ≠ y} := by
    refine ⟨fun k => Relabelling.mark_substitute_of_not_mentions, fun n hn => hn, ?_,
      fun l l' h hl => h.restores hl⟩
    intro n hn k hk heq
    change (if n = y then x else n) = if k = y then x else k at heq
    rwa [if_neg hn, if_neg hk] at heq
  obtain ⟨heq, hfits⟩ :=
    Stmt.ReplacesIn.restores hundoes h fun k hk hmentions => hy ⟨k, hk, hmentions⟩
  exact ⟨congrArg Program.mk heq, hfits⟩

/-- Parameters can be renamed. In one function literal of a program, a parameter and all identifiers
of its name get a name that occurs nowhere in the program. The new program in a new outermost
environment ends exactly if the old one does. The answers are then the same, and so is what was
printed, once the old name is put back into the function literals of values; a fault is the same
as it is. -/
theorem Program.parameter_renaming_unobservable {x y : String} {p p' : Program}
    (h : p.RenamesParameter x y p') (hy : ¬ p.Mentions y) :
    ((∃ a m, Machine.initial.Ends .eager p a m) ↔ ∃ a m, Machine.initial.Ends .eager p' a m) ∧
      ∀ a m a' m', Machine.initial.Ends .eager p a m → Machine.initial.Ends .eager p' a' m' →
        a = a'.relabel (.substitute y x) ∧
          m.printed = m'.printed.map (Value.relabel (.substitute y x)) := by
  obtain ⟨rfl, hfits⟩ := h.restores hy
  have hself : ∀ n ∈ {n | n ≠ y}, (Relabelling.substitute y x).name n = n := fun n hn => if_neg hn
  refine ⟨Machine.exists_ends_relabel_iff hself hfits, fun a m a' m' ha ha' => ?_⟩
  obtain ⟨rfl, rfl⟩ := ha.eq_relabel hself hfits ha'
  exact ⟨rfl, rfl⟩

/-- The parameter is bound anew in the body and kept by a closure, and outside the literal the name
is another variable. -/
theorem Program.parameter_renaming_unobservable_of_shadowing :
    ∃ p p' a m a' m', p.RenamesParameter "x" "w" p' ∧ ¬ p.Mentions "w" ∧
      Machine.initial.Ends .eager p a m ∧ Machine.initial.Ends .eager p' a' m' ∧
        a = a'.relabel (.substitute "w" "x") := by
  let p : Program := (Program.read
    "let x = 4; let f = fn(x) \x7b let x = x + 1; fn() \x7b x \x7d \x7d; f(x)").1
  obtain ⟨ss, h⟩ : ∃ ss, p.RenamesParameter "x" "w" ⟨ss⟩ :=
    ⟨_, .tail (.head (.bind (.here ⟨⟨_, .head _, rfl⟩, rfl⟩)))⟩
  have hy : ¬ p.Mentions "w" := by decide +kernel
  have ha : Machine.initial.Ends .eager p _ _ := ⟨20, rfl, by decide +kernel⟩
  obtain ⟨hends, hsame⟩ := Program.parameter_renaming_unobservable h hy
  obtain ⟨a', m', ha'⟩ := hends.1 ⟨_, _, ha⟩
  exact ⟨p, ⟨ss⟩, _, _, a', m', h, hy, ha, ha', (hsame _ _ _ _ ha ha').1⟩

end Bhasha
