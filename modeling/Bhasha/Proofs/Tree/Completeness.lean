import Bhasha.Proofs.Tree.Soundness

/-!
What the grammar derives is read without a fault.

The pieces are taken in the order of the parser again, and again the reader of expressions is an
argument whose completeness for shorter inputs is an assumption on it, `ReadsEvery`.

A derivation does not say how far reading goes: that is decided by the token behind it. An
expression is read to its end if the token behind it holds it no more tightly than the context
does, and is not the word that would give a conditional at its end a second branch. A list, a
statement and a block each put such a token behind the expressions in them.

An expression is read from its left end on, but its derivation starts from its outermost
construct, the last one to be read. So the loop goes through the left operands from the inside
out: if the loop leads from a phrase to a result, then reading the phrase and going on leads there
too (`clean_of_phrase`), by induction on the phrase.
-/

namespace Bhasha.Reader

open Grammar

variable {α : Type} {last : Token} {faults : Array SyntaxFault}

/-- The reader of expressions reads every phrase to its end, as long as there are no more than `n`
tokens. -/
def ReadsEvery (last : Token) (faults : Array SyntaxFault)
    (expression : Precedence → Reader Expr) (n : Nat) : Prop :=
  ∀ context p ts e rest, Phrase p ts e → ts.length + rest.length ≤ n → context ≤ .unary →
    context.Admits p → (firstKind rest .eof).precedence ≤ context →
    firstKind rest .eof ≠ .kwElse →
    Clean last faults (expression context) (ts ++ rest) e (ts.getLastD last :: rest)

/-- A token of this kind ends every expression before it. -/
def EndsPhrase (k : Kind) : Prop :=
  k.precedence ≤ .lowest ∧ k ≠ .kwElse

instance (k : Kind) : Decidable (EndsPhrase k) :=
  inferInstanceAs (Decidable (_ ∧ _))

/-- A reader behind a token reads every item that stands before the end of an expression. -/
def ReadsEveryItem (last : Token) (faults : Array SyntaxFault) (item : Reader α)
    (Item : List Token → α → Prop) (n : Nat) : Prop :=
  ∀ c ts a rest, Item ts a → ts.length + rest.length ≤ n → EndsPhrase (firstKind rest .eof) →
    Clean last faults item (c :: (ts ++ rest)) a (ts.getLastD c :: rest)

/-! ## Last tokens -/

/-- An expression does not end in a semicolon. -/
lemma kind_getLastD_of_phrase : ∀ {p : Precedence} {ts : List Token} {e : Expr}, Phrase p ts e →
    ∀ t, (ts.getLastD t).kind ≠ .semicolon
  | _, _, _, .ident h, _ | _, _, _, .int h _, _ | _, _, _, .str h, _ | _, _, _, .true h, _
  | _, _, _, .false h, _ => by
    rw [List.getLastD_cons, List.getLastD_nil, h]
    decide
  | _, _, _, .group _ _ hr, _ | _, _, _, .array _ _ hr, _ => by
    rw [List.getLastD_cons, getLastD_append, List.getLastD_cons, List.getLastD_nil, hr]
    decide
  | _, _, _, .call _ _ _ hr, _ | _, _, _, .index _ _ _ hr, _ => by
    rw [getLastD_append, List.getLastD_cons, getLastD_append, List.getLastD_cons,
      List.getLastD_nil, hr]
    decide
  | _, _, _, .cond _ _ _ _ (.mk _ _ hr), _ | _, _, _, .function _ _ _ _ (.mk _ _ hr), _ => by
    simp only [List.getLastD_cons, getLastD_append, List.getLastD_nil, hr]
    decide
  | _, _, _, .condElse _ _ _ _ _ _ (.mk _ _ hr), _ => by
    simp only [List.getLastD_cons, getLastD_append, List.getLastD_nil, hr]
    decide
  | _, _, _, .unary _ _ h, _ => by
    rw [List.getLastD_cons]
    exact kind_getLastD_of_phrase h _
  | _, _, _, .binary _ _ _ _ h, _ => by
    rw [getLastD_append, List.getLastD_cons]
    exact kind_getLastD_of_phrase h _

lemma kind_getLastD_of_whole {ts : List Token} {e : Expr} (h : Whole ts e) (t : Token) :
    (ts.getLastD t).kind ≠ .semicolon := by
  obtain ⟨h⟩ := h
  exact kind_getLastD_of_phrase h t

/-! ## Lists -/

lemma clean_moreItems {item : Reader α} {Item : List Token → α → Prop} {n : Nat}
    (hitem : ReadsEveryItem last faults item Item n) {r : Token} {rest : List Token}
    (hr : EndsPhrase r.kind) (hcomma : r.kind ≠ .comma) {us : List Token} {xs : List α}
    (h : More Item us xs) {k : Nat} {c : Token} (hk : us.length ≤ k)
    (hlen : us.length + (r :: rest).length ≤ n) :
    Clean last faults (moreItems item k) (c :: (us ++ r :: rest)) xs
      (us.getLastD c :: r :: rest) := by
  induction h generalizing k c with
  | nil =>
    cases k with
    | zero => exact .pure
    | succ k =>
      rw [moreItems, clean_get, if_neg (by exact hcomma)]
      exact .pure
  | @cons comma ts us a xs hcm hts hus ih =>
    cases k with
    | zero => exact absurd hk (Nat.not_succ_le_zero _)
    | succ k =>
      simp only [List.length_cons, List.length_append] at hk hlen
      have hnext : EndsPhrase (firstKind (us ++ r :: rest) .eof) := by
        cases hus with
        | nil => exact hr
        | cons hcm' _ _ =>
          rw [List.cons_append, firstKind_cons, hcm']
          decide
      rw [moreItems, clean_get, if_pos (by exact hcm), List.cons_append, List.append_assoc,
        List.getLastD_cons, getLastD_append]
      have hfirst := hitem comma ts a (us ++ r :: rest) hts (by simp; omega) hnext
      exact .bind .advance (.bind hfirst (.bind (ih (by omega) (by simp; omega)) .pure))

section

variable (hlast : last.kind = .eof)
include hlast

/-- The items of a list whose closing token stands behind them. -/
lemma clean_items {item : Reader α} {Item : List Token → α → Prop} {n : Nat}
    (hitem : ReadsEveryItem last faults item Item n) {close : Kind} (hends : EndsPhrase close)
    (hcomma : close ≠ .comma) (hstart : ∀ ts a, Item ts a → firstKind ts close ≠ close)
    {c r : Token} (hr : r.kind = close) {ts rest : List Token} {xs : List α}
    (h : Listed Item ts xs) (hlen : ts.length + (r :: rest).length ≤ n) :
    Clean last faults (items item close) (c :: (ts ++ r :: rest)) xs (r :: rest) := by
  subst hr
  cases h with
  | nil =>
    rw [items, clean_get, if_pos (by rfl)]
    exact .bind .advance .pure
  | @cons ts us a xs hts hus =>
    simp only [List.length_append, List.length_cons] at hlen
    -- the first item does not look like the end of the list
    have hfirst : firstKind ((ts ++ us) ++ r :: rest) .eof ≠ r.kind := by
      have hne := hstart ts a hts
      rw [List.append_assoc, firstKind_append]
      rcases ts with _ | ⟨t, ts⟩
      · exact absurd rfl hne
      · exact hne
    have hnext : EndsPhrase (firstKind (us ++ r :: rest) .eof) := by
      cases hus with
      | nil => exact hends
      | cons hcm _ _ =>
        rw [List.cons_append, firstKind_cons, hcm]
        decide
    rw [items, clean_get, if_neg (by exact (kind_headD hlast _).trans_ne hfirst),
      List.append_assoc]
    refine .bind (hitem c ts a _ hts (by simp; omega) hnext) ?_
    rw [clean_get]
    refine .bind (clean_moreItems hitem hends hcomma hus (by simp; omega) (by simp; omega)) ?_
    exact .bind (.expect rfl) .pure

omit hlast in
lemma readsEveryItem_parameter (n : Nat) : ReadsEveryItem last faults parameter Param n := by
  rintro c _ _ rest ⟨ht⟩ _ _
  exact .bind (.expect ht) .pure

lemma clean_parameters {c r : Token} (hr : r.kind = .rparen) {ts rest : List Token}
    {ids : List Identifier} (h : Listed Param ts ids) :
    Clean last faults parameters (c :: (ts ++ r :: rest)) ids (r :: rest) := by
  refine clean_items hlast (readsEveryItem_parameter _) (by decide) (by decide) ?_ hr h le_rfl
  rintro _ _ ⟨ht⟩
  rw [firstKind_cons, ht]
  decide

/-! ## Statements -/

variable {expression : Precedence → Reader Expr} {n : Nat}
  (hexpr : ReadsEvery last faults expression n)
include hexpr

omit hlast in
lemma readsEveryItem_operand : ReadsEveryItem last faults (operand expression) Whole n := by
  rintro c ts e rest ⟨hts⟩ hlen hnext
  refine .bind .advance ?_
  obtain ⟨t, us, rfl, -⟩ := hts.exists_cons
  exact hexpr .lowest _ (t :: us) e rest hts hlen (by decide) (Or.inl hts.lowest_lt) hnext.1
    hnext.2

lemma clean_operands {close : Kind} (hends : EndsPhrase close) (hcomma : close ≠ .comma)
    (hclose : startsPhrase close = false) {c r : Token} (hr : r.kind = close)
    {ts rest : List Token} {es : List Expr} (h : Listed Whole ts es)
    (hlen : ts.length + (r :: rest).length ≤ n) :
    Clean last faults (items (operand expression) close) (c :: (ts ++ r :: rest)) es
      (r :: rest) := by
  refine clean_items hlast (readsEveryItem_operand hexpr) hends hcomma ?_ hr h hlen
  rintro ts e hts heq
  obtain ⟨t, us, rfl, ht⟩ := hts.exists_cons
  rw [firstKind_cons] at heq
  rw [heq, hclose] at ht
  cases ht

omit hexpr in
lemma clean_statementEnd {c : Token} {us rest : List Token}
    (h : Closing (firstKind rest .eof) us) :
    Clean last faults statementEnd (c :: (us ++ rest)) () (us.getLastD c :: rest) := by
  have hkind : (Cursor.mk (c :: (us ++ rest)) last faults).peek.kind =
      firstKind (us ++ rest) .eof := kind_headD hlast _
  rw [statementEnd, clean_get]
  dsimp only
  rw [hkind]
  cases h with
  | semicolon ht =>
    rw [List.singleton_append, firstKind_cons, ht]
    exact .advance
  | omitted hnext =>
    rw [List.nil_append]
    rcases hnext with hnext | hnext
    · rw [hnext]
      exact .pure
    · rw [hnext]
      exact .pure

omit hlast hexpr in
lemma endsPhrase_of_closing {next : Kind} {us rest : List Token}
    (h : Closing (firstKind rest next) us) : EndsPhrase (firstKind (us ++ rest) next) := by
  cases h with
  | semicolon ht =>
    rw [List.singleton_append, firstKind_cons, ht]
    decide
  | omitted hnext =>
    rw [List.nil_append]
    rcases hnext with hnext | hnext <;> rw [hnext] <;> decide

lemma clean_binding {t id a : Token} (hid : id.kind = .ident) (ha : a.kind = .assign)
    {ts us rest : List Token} {e : Expr} (hts : Whole ts e) (hus : Closing (firstKind rest .eof) us)
    (hlen : ts.length + (us ++ rest).length ≤ n) :
    Clean last faults (binding expression) (t :: id :: a :: (ts ++ (us ++ rest)))
      (.bind t ⟨id, id.literal⟩ e) (us.getLastD (ts.getLastD a) :: rest) := by
  have hvalue := readsEveryItem_operand hexpr a ts e (us ++ rest) hts hlen
    (endsPhrase_of_closing hus)
  rw [binding, clean_get]
  refine .bind (.expect hid) ?_
  rw [clean_get]
  exact .bind (.expect ha) (.bind hvalue (.bind (clean_statementEnd hlast hus) .pure))

lemma clean_returning {t : Token} {ts us rest : List Token} {e : Expr} (hts : Whole ts e)
    (hus : Closing (firstKind rest .eof) us) (hlen : ts.length + (us ++ rest).length ≤ n) :
    Clean last faults (returning expression) (t :: (ts ++ (us ++ rest))) (.ret t e)
      (us.getLastD (ts.getLastD t) :: rest) := by
  have hvalue := readsEveryItem_operand hexpr t ts e (us ++ rest) hts hlen
    (endsPhrase_of_closing hus)
  rw [returning, clean_get]
  exact .bind hvalue (.bind (clean_statementEnd hlast hus) .pure)

lemma clean_expressionStatement {t : Token} {ts us rest : List Token} {e : Expr}
    (hts : Whole (t :: ts) e) (hus : Ending (firstKind rest .eof) us)
    (hlen : (t :: ts).length + (us ++ rest).length ≤ n)
    (hopen : us = [] → firstKind rest .eof ≠ .semicolon ∧ firstKind rest .eof ≠ .kwElse) :
    Clean last faults (expressionStatement expression) (t :: (ts ++ (us ++ rest))) (.expr t e)
      (us.getLastD (ts.getLastD t) :: rest) := by
  have hnext : EndsPhrase (firstKind (us ++ rest) .eof) := by
    cases hus with
    | semicolon ht =>
      rw [List.singleton_append, firstKind_cons, ht]
      decide
    | omitted hlow => exact ⟨Precedence.not_lt.1 hlow, (hopen rfl).2⟩
  obtain ⟨hts⟩ := hts
  have hvalue := hexpr .lowest _ (t :: ts) e (us ++ rest) hts hlen (by decide)
    (Or.inl hts.lowest_lt) hnext.1 hnext.2
  rw [expressionStatement, clean_get]
  refine .bind hvalue ?_
  rw [clean_get]
  cases hus with
  | semicolon ht =>
    rw [if_pos (by exact ht)]
    exact .bind .advance .pure
  | omitted _ =>
    rw [if_neg (by exact (kind_headD hlast rest).trans_ne (hopen rfl).1)]
    rw [List.getLastD_cons]
    exact .pure

/-- A statement is read to its end if it ends in a semicolon, or before a token that is neither a
semicolon nor the word before a second branch. -/
lemma clean_statement {ts rest : List Token} {s : Stmt}
    (h : Sentence (firstKind rest .eof) ts s) (hlen : ts.length + rest.length ≤ n)
    (hopen : (ts.getLastD last).kind ≠ .semicolon →
      firstKind rest .eof ≠ .semicolon ∧ firstKind rest .eof ≠ .kwElse) :
    Clean last faults (statement expression) (ts ++ rest) s (ts.getLastD last :: rest) := by
  cases h with
  | @bind _ t id a ts us e ht hid ha hts hus =>
    simp only [List.length_cons, List.length_append] at hlen
    simp only [List.cons_append, List.append_assoc, List.getLastD_cons, getLastD_append]
    have hread := clean_binding (t := t) hlast hexpr hid ha hts hus (by simp; omega)
    obtain ⟨_, _, _⟩ := t
    cases ht
    exact hread
  | @ret _ t ts us e ht hts hus =>
    simp only [List.length_cons, List.length_append] at hlen
    simp only [List.cons_append, List.append_assoc, List.getLastD_cons, getLastD_append]
    have hread := clean_returning (t := t) hlast hexpr hts hus (by simp; omega)
    obtain ⟨_, _, _⟩ := t
    cases ht
    exact hread
  | @expr _ t ts us e hts hus =>
    simp only [List.length_cons, List.length_append] at hlen
    simp only [List.cons_append, List.append_assoc, List.getLastD_cons, getLastD_append]
      at hopen ⊢
    have hopen' : us = [] → firstKind rest .eof ≠ .semicolon ∧ firstKind rest .eof ≠ .kwElse := by
      rintro rfl
      have hne := kind_getLastD_of_whole hts last
      rw [List.getLastD_cons] at hne
      exact hopen hne
    have hread := clean_expressionStatement hlast hexpr hts hus (by simp; omega) hopen'
    obtain ⟨u, us, heq, hstart⟩ := hts.exists_cons
    obtain ⟨rfl, rfl⟩ := List.cons.inj heq
    rw [statement, clean_get]
    split
    · rename_i hk
      have hk : t.kind = .kwLet := hk
      rw [hk] at hstart
      cases hstart
    · rename_i hk
      have hk : t.kind = .kwReturn := hk
      rw [hk] at hstart
      cases hstart
    · exact hread

omit hlast hexpr in
/-- What follows a statement is the start of another or what ends them all. -/
lemma firstKind_of_sentences {next : Kind} {ts : List Token} {ss : List Stmt}
    (h : Sentences next ts ss) : firstKind ts next = next ∨ startsSentence (firstKind ts next) := by
  cases h with
  | nil => exact Or.inl rfl
  | cons hs _ =>
    obtain ⟨t, us, rfl, ht⟩ := hs.exists_cons
    exact Or.inr ht

/-- Statements are read up to the token that ends them. -/
lemma clean_statementsUntil {stop : Kind → Bool} (hstop : ∀ k, startsSentence k → stop k = false)
    {ts rest : List Token} {ss : List Stmt} (h : Sentences (firstKind rest .eof) ts ss)
    (hsemi : firstKind rest .eof ≠ .semicolon) (helse : firstKind rest .eof ≠ .kwElse)
    (hend : stop (firstKind rest .eof) ∨ firstKind rest .eof = .eof)
    (hlen : ts.length + rest.length ≤ n) {k : Nat} (hk : ts.length + rest.length ≤ k) :
    Clean last faults (statementsUntil expression stop k) (ts ++ rest) ss rest := by
  have hkind : ∀ as, (Cursor.mk as last faults).current.kind = firstKind as .eof :=
    fun as => kind_headD hlast as
  induction ss generalizing ts k with
  | nil =>
    cases h
    cases k with
    | zero => exact .pure
    | succ k =>
      rw [statementsUntil, clean_get]
      dsimp only
      rw [hkind, if_pos (by simpa using hend)]
      exact .pure
  | cons s ss ih =>
    cases h with
    | @cons _ ts us _ _ hs hus =>
    obtain ⟨t, ts', rfl, hstart⟩ := hs.exists_cons
    simp only [List.length_append, List.length_cons] at hlen hk
    cases k with
    | zero => omega
    | succ k =>
      -- what follows a statement is neither a semicolon nor the word before a second branch
      have hnext := firstKind_of_sentences hus
      rw [← firstKind_append] at hs hnext
      have hfirst : Clean last faults (statement expression) ((t :: ts') ++ (us ++ rest)) s
          ((t :: ts').getLastD last :: (us ++ rest)) := by
        refine clean_statement hlast hexpr hs (by simp; omega) fun _ => ⟨?_, ?_⟩
        · intro heq
          rw [heq] at hnext
          exact hnext.elim (fun h => hsemi h.symm) (absurd · (by decide))
        · intro heq
          rw [heq] at hnext
          exact hnext.elim (fun h => helse h.symm) (absurd · (by decide))
      have hne : t.kind ≠ .eof := by
        intro heq
        rw [heq] at hstart
        cases hstart
      rw [statementsUntil, clean_get]
      dsimp only
      rw [hkind, List.append_assoc, List.cons_append, firstKind_cons,
        if_neg (by simp [hstop _ hstart, hne])]
      exact .bind hfirst.attempt
        (.bind .advance (.bind (ih hus (by omega) (by omega)) .pure))

lemma clean_block {us : List Token} {b : Block} (h : Braced us b) {rest : List Token}
    (hlen : us.length + rest.length ≤ n + 1) :
    Clean last faults (block expression) (us ++ rest) b (us.getLastD last :: rest) := by
  cases h with
  | @mk l r ts ss hl hts hr =>
  simp only [List.length_cons, List.length_append, List.length_nil] at hlen
  simp only [List.cons_append, List.append_assoc, List.nil_append, List.getLastD_cons,
    getLastD_append, List.getLastD_nil]
  have hkind : firstKind (r :: rest) .eof = .rbrace := hr
  have hread : Clean last faults
      (statementsUntil expression (· == .rbrace) (ts ++ r :: rest).length)
      (ts ++ r :: rest) ss (r :: rest) := by
    refine clean_statementsUntil hlast hexpr ?_ (hkind ▸ hts) ?_ ?_ ?_ (by simp; omega) (by simp)
    · intro k
      cases k <;> decide
    · rw [hkind]; decide
    · rw [hkind]; decide
    · rw [hkind]; exact Or.inl rfl
  rw [block, clean_get]
  refine .bind .advance ?_
  rw [clean_get]
  refine .bind hread ?_
  rw [clean_get]
  dsimp only
  rw [if_neg]
  · exact .pure
  · intro heof
    cases hr.symm.trans heof

/-! ## The left end of an expression -/

omit hlast in
lemma clean_leftEnd_group {l r : Token} (hl : l.kind = .lparen) {ts rest : List Token} {e : Expr}
    (hts : Whole ts e) (hr : r.kind = .rparen)
    (hlen : (l :: (ts ++ [r])).length + rest.length ≤ n + 1) :
    Clean last faults (leftEnd expression) (l :: (ts ++ [r]) ++ rest) e
      ((l :: (ts ++ [r])).getLastD last :: rest) := by
  simp only [List.length_cons, List.length_append, List.length_nil] at hlen
  rw [List.getLastD_cons, List.getLastD_concat, List.cons_append, List.append_assoc]
  have hnext : EndsPhrase (firstKind (r :: rest) .eof) := by
    rw [firstKind_cons, hr]
    decide
  have hvalue := readsEveryItem_operand hexpr l ts e (r :: rest) hts (by simp; omega) hnext
  have hread : Clean last faults (group expression) (l :: (ts ++ r :: rest)) e (r :: rest) :=
    .bind hvalue (.bind (.expect hr) .pure)
  obtain ⟨_, _, _⟩ := l
  cases hl
  exact hread

lemma clean_leftEnd_array {l r : Token} (hl : l.kind = .lbracket) {ts rest : List Token}
    {es : List Expr} (hts : Listed Whole ts es) (hr : r.kind = .rbracket)
    (hlen : (l :: (ts ++ [r])).length + rest.length ≤ n + 1) :
    Clean last faults (leftEnd expression) (l :: (ts ++ [r]) ++ rest) (.array l es)
      ((l :: (ts ++ [r])).getLastD last :: rest) := by
  simp only [List.length_cons, List.length_append, List.length_nil] at hlen
  rw [List.getLastD_cons, List.getLastD_concat, List.cons_append, List.append_assoc]
  have hitems : Clean last faults (items (operand expression) .rbracket) (l :: (ts ++ r :: rest)) es
      (r :: rest) :=
    clean_operands hlast hexpr (by decide) (by decide) rfl hr hts (by simp; omega)
  have hread : Clean last faults (array expression) (l :: (ts ++ r :: rest)) (.array l es)
      (r :: rest) := by
    rw [array, clean_get]
    exact .bind hitems .pure
  obtain ⟨_, _, _⟩ := l
  cases hl
  exact hread

omit hlast hexpr in
lemma exists_cons_of_braced {us : List Token} {b : Block} (h : Braced us b) :
    ∃ l ts, us = l :: ts ∧ l.kind = .lbrace := by
  cases h with
  | mk hl _ _ => exact ⟨_, _, rfl, hl⟩

/-- A conditional without a second branch, where no word for one follows. -/
lemma clean_leftEnd_cond {t l r : Token} (ht : t.kind = .kwIf) (hl : l.kind = .lparen)
    {ts us rest : List Token} {c : Expr} {b : Block} (hts : Whole ts c) (hr : r.kind = .rparen)
    (hus : Braced us b) (hlen : (t :: l :: (ts ++ r :: us)).length + rest.length ≤ n + 1)
    (helse : firstKind rest .eof ≠ .kwElse) :
    Clean last faults (leftEnd expression) (t :: l :: (ts ++ r :: us) ++ rest) (.cond t c b none)
      ((t :: l :: (ts ++ r :: us)).getLastD last :: rest) := by
  simp only [List.length_cons, List.length_append] at hlen
  have hnext : EndsPhrase (firstKind (r :: (us ++ rest)) .eof) := by
    rw [firstKind_cons, hr]
    decide
  have hcondition := readsEveryItem_operand hexpr l ts c (r :: (us ++ rest)) hts
    (by simp; omega) hnext
  have hblock := clean_block hlast hexpr hus (by omega : us.length + rest.length ≤ n + 1)
  obtain ⟨lb, us, rfl, hlb⟩ := exists_cons_of_braced hus
  have hread : Clean last faults (conditional expression)
      (t :: l :: (ts ++ r :: (lb :: us ++ rest))) (.cond t c b none)
      ((lb :: us).getLastD last :: rest) := by
    rw [conditional, clean_get]
    refine .bind (.expect hl) (.bind hcondition (.bind (.expect hr) (.bind (.expect hlb) ?_)))
    refine .bind hblock ?_
    rw [clean_get, if_neg (by exact (kind_headD hlast rest).trans_ne helse)]
    exact .pure
  simp only [List.getLastD_cons, getLastD_append, List.cons_append, List.append_assoc] at hread ⊢
  obtain ⟨_, _, _⟩ := t
  cases ht
  exact hread

lemma clean_leftEnd_condElse {t l r el : Token} (ht : t.kind = .kwIf) (hl : l.kind = .lparen)
    {ts us vs rest : List Token} {c : Expr} {b b' : Block} (hts : Whole ts c)
    (hr : r.kind = .rparen) (hus : Braced us b) (hel : el.kind = .kwElse) (hvs : Braced vs b')
    (hlen : (t :: l :: (ts ++ r :: (us ++ el :: vs))).length + rest.length ≤ n + 1) :
    Clean last faults (leftEnd expression) (t :: l :: (ts ++ r :: (us ++ el :: vs)) ++ rest)
      (.cond t c b (some b'))
      ((t :: l :: (ts ++ r :: (us ++ el :: vs))).getLastD last :: rest) := by
  simp only [List.length_cons, List.length_append] at hlen
  have hnext : EndsPhrase (firstKind (r :: (us ++ el :: (vs ++ rest))) .eof) := by
    rw [firstKind_cons, hr]
    decide
  have hcondition := readsEveryItem_operand hexpr l ts c (r :: (us ++ el :: (vs ++ rest))) hts
    (by simp; omega) hnext
  have hblock : Clean last faults (block expression) (us ++ el :: (vs ++ rest)) b
      (us.getLastD last :: el :: (vs ++ rest)) :=
    clean_block hlast hexpr hus (by simp; omega)
  have hblock' := clean_block hlast hexpr hvs (by omega : vs.length + rest.length ≤ n + 1)
  obtain ⟨lb, us, rfl, hlb⟩ := exists_cons_of_braced hus
  obtain ⟨lb', vs, rfl, hlb'⟩ := exists_cons_of_braced hvs
  have hread : Clean last faults (conditional expression)
      (t :: l :: (ts ++ r :: (lb :: us ++ el :: (lb' :: vs ++ rest)))) (.cond t c b (some b'))
      ((lb' :: vs).getLastD last :: rest) := by
    rw [conditional, clean_get]
    refine .bind (.expect hl) (.bind hcondition (.bind (.expect hr) (.bind (.expect hlb) ?_)))
    refine .bind hblock ?_
    rw [clean_get, if_pos (by exact hel)]
    exact .bind .advance (.bind (.expect hlb') (.bind hblock' .pure))
  simp only [List.getLastD_cons, getLastD_append, List.cons_append, List.append_assoc] at hread ⊢
  obtain ⟨_, _, _⟩ := t
  cases ht
  exact hread

lemma clean_leftEnd_function {t l r : Token} (ht : t.kind = .kwFunction) (hl : l.kind = .lparen)
    {ts us rest : List Token} {ids : List Identifier} {b : Block} (hts : Listed Param ts ids)
    (hr : r.kind = .rparen) (hus : Braced us b)
    (hlen : (t :: l :: (ts ++ r :: us)).length + rest.length ≤ n + 1) :
    Clean last faults (leftEnd expression) (t :: l :: (ts ++ r :: us) ++ rest)
      (.function t ids b) ((t :: l :: (ts ++ r :: us)).getLastD last :: rest) := by
  simp only [List.length_cons, List.length_append] at hlen
  have hparams : Clean last faults parameters (l :: (ts ++ r :: (us ++ rest))) ids
      (r :: (us ++ rest)) := clean_parameters hlast hr hts
  have hblock := clean_block hlast hexpr hus (by omega : us.length + rest.length ≤ n + 1)
  obtain ⟨lb, us, rfl, hlb⟩ := exists_cons_of_braced hus
  have hread : Clean last faults (function expression)
      (t :: l :: (ts ++ r :: (lb :: us ++ rest))) (.function t ids b)
      ((lb :: us).getLastD last :: rest) := by
    rw [function, clean_get]
    exact .bind (.expect hl) (.bind hparams (.bind (.expect hlb) (.bind hblock .pure)))
  simp only [List.getLastD_cons, getLastD_append, List.cons_append, List.append_assoc] at hread ⊢
  obtain ⟨_, _, _⟩ := t
  cases ht
  exact hread

omit hlast in
lemma clean_leftEnd_unary {t : Token} {op : UnaryOp} (ht : t.kind.unaryOp? = some op)
    {p : Precedence} {ts rest : List Token} {e : Expr} (hts : Phrase p ts e) (hp : .unary ≤ p)
    (hlen : (t :: ts).length + rest.length ≤ n + 1)
    (hnext : (firstKind rest .eof).precedence ≤ .unary) (helse : firstKind rest .eof ≠ .kwElse) :
    Clean last faults (leftEnd expression) (t :: ts ++ rest) (.unary t op e)
      ((t :: ts).getLastD last :: rest) := by
  rw [List.length_cons] at hlen
  have hvalue := hexpr .unary p ts e rest hts (by omega) (by decide) (Or.inr hp) hnext helse
  obtain ⟨u, us, rfl, -⟩ := hts.exists_cons
  have hread : Clean last faults (unary expression op) (t :: (u :: us ++ rest)) (.unary t op e)
      ((u :: us).getLastD last :: rest) := by
    rw [unary, clean_get]
    exact .bind .advance (.bind hvalue .pure)
  rw [List.getLastD_cons] at hread ⊢
  rw [List.getLastD_cons]
  obtain ⟨kind, _, _⟩ := t
  cases kind <;> cases ht <;> exact hread

omit hlast hexpr in
lemma clean_leftEnd_int {t : Token} (ht : t.kind = .int) {value : Int64}
    (hvalue : value.toInt = Number.ofDigits t.literal.toList) {as : List Token} :
    Clean last faults (leftEnd expression) (t :: as) (.int t value) (t :: as) := by
  have hdigits : Number.ofDigits? t.literal = some value := Number.ofInt?_eq_some_iff.2 hvalue
  have hread : Clean last faults integer (t :: as) (.int t value) (t :: as) := by
    rw [integer, clean_get]
    dsimp only
    rw [show (Cursor.mk (t :: as) last faults).current = t from rfl, hdigits]
    exact .pure
  obtain ⟨_, _, _⟩ := t
  cases ht
  exact hread

/-! ## What continues an expression -/

lemma clean_continuation_call {l r : Token} (hl : l.kind = .lparen) (hr : r.kind = .rparen)
    {us rest : List Token} {callee : Expr} {args : List Expr} (hus : Listed Whole us args)
    (hlen : us.length + (r :: rest).length ≤ n) :
    Clean last faults (continuation expression callee) (l :: (us ++ r :: rest))
      (.call l callee args) (r :: rest) := by
  have hargs : Clean last faults (items (operand expression) .rparen) (l :: (us ++ r :: rest)) args
      (r :: rest) := clean_operands hlast hexpr (by decide) (by decide) rfl hr hus hlen
  obtain ⟨_, _, _⟩ := l
  cases hl
  rw [continuation, clean_get]
  exact .bind hargs .pure

omit hlast in
lemma clean_continuation_index {l r : Token} (hl : l.kind = .lbracket) (hr : r.kind = .rbracket)
    {us rest : List Token} {base index : Expr} (hus : Whole us index)
    (hlen : us.length + (r :: rest).length ≤ n) :
    Clean last faults (continuation expression base) (l :: (us ++ r :: rest))
      (.index l base index) (r :: rest) := by
  have hnext : EndsPhrase (firstKind (r :: rest) .eof) := by
    rw [firstKind_cons, hr]
    decide
  have hindex := readsEveryItem_operand hexpr l us index (r :: rest) hus hlen hnext
  obtain ⟨_, _, _⟩ := l
  cases hl
  rw [continuation, clean_get]
  exact .bind hindex (.bind (.expect hr) .pure)

omit hlast in
lemma clean_continuation_binary {t : Token} {op : BinaryOp} (ht : t.kind.binaryOp? = some op)
    {q : Precedence} {us rest : List Token} {left right : Expr} (hq : op.precedence < q)
    (hus : Phrase q us right) (hlen : us.length + rest.length ≤ n)
    (hnext : (firstKind rest .eof).precedence ≤ op.precedence)
    (helse : firstKind rest .eof ≠ .kwElse) :
    Clean last faults (continuation expression left) (t :: (us ++ rest))
      (.binary t op left right) (us.getLastD last :: rest) := by
  have hright := hexpr op.precedence q us right rest hus hlen
    (Nat.le_of_lt op.precedence_lt_unary) (Or.inl hq) hnext helse
  rw [continuation, clean_get]
  obtain ⟨kind, _, _⟩ := t
  cases kind <;> cases ht <;> exact .bind .advance (.bind hright .pure)

end

/-! ## The loop -/

/-- Going on from `left`, as far as the context allows, leads to `e`. -/
def Continues (last : Token) (faults : Array SyntaxFault) (expression : Precedence → Reader Expr)
    (context : Precedence) (left : Expr) (as : List Token) (e : Expr) (as' : List Token) : Prop :=
  ∀ k, as.length ≤ k → Clean last faults (continuations expression context k left) as e as'

section

variable {expression : Precedence → Reader Expr} {context : Precedence} {left left' e : Expr}
  {c t : Token} {as as₁ as' : List Token}

lemma Continues.stop (hlast : last.kind = .eof) (h : (firstKind as .eof).precedence ≤ context) :
    Continues last faults expression context left (c :: as) left (c :: as) := by
  intro k hk
  cases k with
  | zero => exact absurd hk (Nat.not_succ_le_zero _)
  | succ k =>
    have hkind : (Cursor.mk (c :: as) last faults).peek.kind = firstKind as .eof :=
      kind_headD hlast as
    rw [continuations, clean_get, hkind, if_neg (Precedence.not_lt.2 h)]
    exact .pure

lemma Continues.step (ht : context < t.kind.precedence)
    (hstep : Clean last faults (continuation expression left) (t :: as) left' as₁)
    (hlen : as₁.length ≤ (t :: as).length)
    (h : Continues last faults expression context left' as₁ e as') :
    Continues last faults expression context left (c :: t :: as) e as' := by
  intro k hk
  cases k with
  | zero => exact absurd hk (Nat.not_succ_le_zero _)
  | succ k =>
    rw [List.length_cons] at hk
    rw [continuations, clean_get, if_pos (by exact ht)]
    exact .bind .advance (.bind hstep (h k (by omega)))

/-- An expression is read by reading what it starts with and going on from there. -/
lemma Continues.clean {n : Nat}
    (hleft : Clean last faults (leftEnd (expressionWithin n)) as left as₁)
    (h : Continues last faults (expressionWithin n) context left as₁ e as') :
    Clean last faults (expressionWithin (n + 1) context) as e as' := by
  rw [expressionWithin]
  refine .bind hleft ?_
  rw [clean_get]
  exact h _ (le_refl _)

end

/-! ## Expressions and programs -/

/-- If going on from a phrase leads to a result, then so does reading the phrase and going on. -/
lemma clean_of_phrase (hlast : last.kind = .eof) {n : Nat}
    (hexpr : ReadsEvery last faults (expressionWithin n) n) {context : Precedence}
    (hcontext : context ≤ .unary) {p : Precedence} {ts rest as' : List Token} {left e : Expr}
    (h : Phrase p ts left) (hadmits : context.Admits p) (hlen : ts.length + rest.length ≤ n + 1)
    (hnext : (firstKind rest .eof).precedence ≤ p) (helse : firstKind rest .eof ≠ .kwElse)
    (hgo : Continues last faults (expressionWithin n) context left (ts.getLastD last :: rest) e
      as') :
    Clean last faults (expressionWithin (n + 1) context) (ts ++ rest) e as' := by
  have hcall : context < .call := Nat.lt_of_le_of_lt hcontext (by decide)
  match h with
  | @Phrase.ident ⟨_, _, _⟩ ht | @Phrase.str ⟨_, _, _⟩ ht | @Phrase.true ⟨_, _, _⟩ ht
  | @Phrase.false ⟨_, _, _⟩ ht =>
    cases ht
    exact hgo.clean rfl
  | .int ht hvalue => exact hgo.clean (clean_leftEnd_int ht hvalue)
  | .group hl hus hr => exact hgo.clean (clean_leftEnd_group hexpr hl hus hr hlen)
  | .cond ht hl hus hr hvs =>
    exact hgo.clean (clean_leftEnd_cond hlast hexpr ht hl hus hr hvs hlen helse)
  | .condElse ht hl hus hr hvs hel hws =>
    exact hgo.clean (clean_leftEnd_condElse hlast hexpr ht hl hus hr hvs hel hws hlen)
  | .function ht hl hus hr hvs =>
    exact hgo.clean (clean_leftEnd_function hlast hexpr ht hl hus hr hvs hlen)
  | .array hl hus hr => exact hgo.clean (clean_leftEnd_array hlast hexpr hl hus hr hlen)
  | .unary ht hq hus => exact hgo.clean (clean_leftEnd_unary hexpr ht hus hq hlen hnext helse)
  -- what ends in a call, an index or an operand: the left operand is read first
  | @Phrase.call l r us vs callee args hcallee hl hvs hr =>
    simp only [List.length_cons, List.length_append, List.length_nil] at hlen
    simp only [getLastD_append, List.getLastD_cons, List.getLastD_nil] at hgo
    have hstep : Clean last faults (continuation (expressionWithin n) callee)
        (l :: (vs ++ r :: rest)) (.call l callee args) (r :: rest) :=
      clean_continuation_call hlast hexpr hl hr hvs (by simp; omega)
    have hgo' := hgo.step (c := us.getLastD last) (by rw [hl]; exact hcall) hstep (by simp; omega)
    have hread := clean_of_phrase hlast hexpr hcontext hcallee hadmits (by simp; omega)
      (by rw [firstKind_cons, hl]; decide) (by rw [firstKind_cons, hl]; decide) hgo'
    simpa using hread
  | @Phrase.index l r us vs base index hbase hl hvs hr =>
    simp only [List.length_cons, List.length_append, List.length_nil] at hlen
    simp only [getLastD_append, List.getLastD_cons, List.getLastD_nil] at hgo
    have hstep : Clean last faults (continuation (expressionWithin n) base)
        (l :: (vs ++ r :: rest)) (.index l base index) (r :: rest) :=
      clean_continuation_index hexpr hl hr hvs (by simp; omega)
    have hgo' := hgo.step (c := us.getLastD last) (by rw [hl]; exact hcall) hstep (by simp; omega)
    have hread := clean_of_phrase hlast hexpr hcontext hbase hadmits (by simp; omega)
      (by rw [firstKind_cons, hl]; decide) (by rw [firstKind_cons, hl]; decide) hgo'
    simpa using hread
  | @Phrase.binary t us vs op q q' left' right ht hq hus hq' hvs =>
    simp only [List.length_cons, List.length_append] at hlen
    have hprec := Kind.precedence_of_binaryOp? ht
    have hop : context < op.precedence :=
      hadmits.elim id fun hle => absurd hle (Nat.not_le_of_lt op.precedence_lt_unary)
    have hstep : Clean last faults (continuation (expressionWithin n) left') (t :: (vs ++ rest))
        (.binary t op left' right) (vs.getLastD last :: rest) :=
      clean_continuation_binary hexpr ht hq' hvs (by omega) hnext helse
    obtain ⟨v, vs, rfl, -⟩ := hvs.exists_cons
    simp only [getLastD_append, List.getLastD_cons] at hgo hstep
    have hgo' := hgo.step (c := us.getLastD last) (by rw [hprec]; exact hop) hstep (by simp; omega)
    have hread := clean_of_phrase hlast hexpr hcontext hus
      (Or.inl (Nat.lt_of_lt_of_le hop hq)) (by simp at hlen ⊢; omega)
      (by rw [List.cons_append, firstKind_cons, hprec]; exact hq) ?_ hgo'
    · simpa using hread
    · intro hk
      rw [List.cons_append, firstKind_cons] at hk
      rw [hk] at ht
      cases ht

lemma readsEvery_expressionWithin (hlast : last.kind = .eof) (n : Nat) :
    ReadsEvery last faults (expressionWithin n) n := by
  induction n with
  | zero =>
    intro context p ts e rest h hlen
    obtain ⟨t, us, rfl, -⟩ := h.exists_cons
    simp at hlen
  | succ n ih =>
    intro context p ts e rest h hlen hcontext hadmits hnext helse
    have hp : context ≤ p := hadmits.elim Nat.le_of_lt (Nat.le_trans hcontext)
    exact clean_of_phrase hlast ih hcontext h hadmits hlen (Nat.le_trans hnext hp) helse
      (.stop hlast hnext)

/-- A text that the grammar derives is read without a fault, up to its end, and what is read is the
tree of the derivation. -/
lemma clean_of_derives (hlast : last.kind = .eof) {ts : List Token} {p : Program}
    (h : Derives ts p) : Clean last faults program ts p [] := by
  have hss : Sentences (firstKind [] .eof) ts p.statements := h
  have hread : Clean last faults (statementsUntil (expressionWithin ts.length) (fun _ => false)
      ts.length) (ts ++ []) p.statements [] :=
    clean_statementsUntil hlast (readsEvery_expressionWithin hlast _) (fun _ _ => rfl) hss
      (by decide) (by decide) (Or.inr rfl) (le_refl _) (le_refl _)
  rw [List.append_nil] at hread
  rw [program, clean_get]
  exact .bind hread .pure

end Bhasha.Reader
