import Bhasha.Proofs.Tree.Grammar
import Bhasha.Proofs.Tree.Reading

/-!
What is read without a fault follows the grammar.

Each piece of the parser, if it reads cleanly, has read tokens that the grammar derives, and
yields the tree of the derivation. The pieces are taken in the order of the parser. They get the
reader of expressions as an argument, and its soundness for shorter inputs is an assumption on
it, `ReadsPhrases`; the last lemma of the file ties the knot by induction on the number of tokens.

The heart of it is the loop that continues an expression. What has been read so far is a phrase
of some level, and the next token never holds it more tightly than its own level does: after an
operand the reader has gone on until that was so. Hence whatever the next token is, the phrase so
far is a fitting left operand for it.
-/

namespace Bhasha

namespace Precedence

/-- An expression of a level can stand in a context: it is tighter than the context, or it is at
least as tight as an operator before its operand, which no context can take apart. -/
def Admits (context level : Precedence) : Prop :=
  context < level ∨ .unary ≤ level

lemma not_lt {p q : Precedence} : ¬ p < q ↔ q ≤ p := Nat.not_lt

lemma le_call (p : Precedence) : p ≤ .call := by
  cases p <;> decide

lemma eq_call_of_le {p : Precedence} (h : .call ≤ p) : p = .call := by
  cases p <;> first | rfl | exact absurd h (by decide)

end Precedence

lemma Kind.precedence_of_binaryOp? {k : Kind} {op : BinaryOp} (h : k.binaryOp? = some op) :
    k.precedence = op.precedence := by
  cases k <;> cases h <;> rfl

lemma BinaryOp.precedence_lt_unary (op : BinaryOp) : op.precedence < .unary := by
  cases op <;> decide

lemma BinaryOp.lt_of_admits {op : BinaryOp} {p : Precedence} (h : op.precedence.Admits p) :
    op.precedence < p :=
  h.elim id (Nat.lt_of_lt_of_le op.precedence_lt_unary)

namespace Reader

open Grammar

variable {α : Type} {last : Token} {faults : Array SyntaxFault}

/-- The reader of expressions reads phrases only, as long as there are no more than `n` tokens. -/
def ReadsPhrases (last : Token) (faults : Array SyntaxFault)
    (expression : Precedence → Reader Expr) (n : Nat) : Prop :=
  ∀ context as e as', as.length ≤ n → Clean last faults (expression context) as e as' →
    ∃ p ts rest, as = ts ++ rest ∧ as' = ts.getLastD last :: rest ∧ Phrase p ts e ∧
      context.Admits p ∧ (firstKind rest .eof).precedence ≤ context

/-- A reader behind a token reads items only. -/
def ReadsItems (last : Token) (faults : Array SyntaxFault) (item : Reader α)
    (Item : List Token → α → Prop) (n : Nat) : Prop :=
  ∀ c as a as', as.length ≤ n → Clean last faults item (c :: as) a as' →
    ∃ ts rest, as = ts ++ rest ∧ as' = ts.getLastD c :: rest ∧ Item ts a

section

variable (hlast : last.kind = .eof)
include hlast

lemma kind_headD (as : List Token) : (as.headD last).kind = firstKind as .eof := by
  cases as with
  | nil => exact hlast
  | cons t as => rfl

/-! ## Lists -/

lemma more_of_clean {item : Reader α} [Forward item] {Item : List Token → α → Prop} {n : Nat}
    (hitem : ReadsItems last faults item Item n) {k : Nat} {c : Token} {as as' : List Token}
    {xs : List α} (hlen : as.length ≤ n)
    (h : Clean last faults (moreItems item k) (c :: as) xs as') :
    ∃ ts rest, as = ts ++ rest ∧ as' = ts.getLastD c :: rest ∧ More Item ts xs := by
  induction k generalizing c as xs with
  | zero =>
    obtain ⟨rfl, rfl⟩ := clean_pure.1 h
    exact ⟨[], as, rfl, rfl, .nil⟩
  | succ k ih =>
    rw [moreItems, clean_get] at h
    split at h
    · -- a comma and one more item
      rename_i hcomma
      have hk : firstKind as .eof = .comma := (kind_headD hlast as).symm.trans hcomma
      rcases as with _ | ⟨comma, as⟩
      · cases hk
      obtain ⟨_, as₁, hadvance, h₁⟩ := clean_bind.1 h
      obtain rfl := clean_advance.1 hadvance
      obtain ⟨a, as₂, ha, h₂⟩ := clean_bind.1 h₁
      obtain ⟨xs', as₃, hxs, h₃⟩ := clean_bind.1 h₂
      obtain ⟨rfl, rfl⟩ := clean_pure.1 h₃
      rw [List.length_cons] at hlen
      obtain ⟨ts, us, rfl, rfl, hts⟩ := hitem comma as a as₂ (by omega) ha
      rw [List.length_append] at hlen
      obtain ⟨vs, us, rfl, rfl, hvs⟩ := ih (by omega) hxs
      refine ⟨comma :: (ts ++ vs), us, by simp, ?_, .cons hk hts hvs⟩
      rw [List.getLastD_cons, getLastD_append]
    · obtain ⟨rfl, rfl⟩ := clean_pure.1 h
      exact ⟨[], as, rfl, rfl, .nil⟩

lemma listed_of_clean {item : Reader α} [Forward item] {Item : List Token → α → Prop} {n : Nat}
    (hitem : ReadsItems last faults item Item n) {close : Kind} (hclose : close ≠ .eof)
    {c : Token} {as as' : List Token} {xs : List α} (hlen : as.length ≤ n)
    (h : Clean last faults (items item close) (c :: as) xs as') :
    ∃ ts r rest, as = ts ++ r :: rest ∧ as' = r :: rest ∧ r.kind = close ∧ Listed Item ts xs := by
  rw [items, clean_get] at h
  split at h
  · -- the list is empty; the end of the text does not close it
    rename_i hk
    have hk : firstKind as .eof = close := (kind_headD hlast as).symm.trans hk
    rcases as with _ | ⟨r, as⟩
    · exact absurd hk.symm hclose
    obtain ⟨_, as₁, hadvance, h₁⟩ := clean_bind.1 h
    obtain rfl := clean_advance.1 hadvance
    obtain ⟨rfl, rfl⟩ := clean_pure.1 h₁
    exact ⟨[], r, as, rfl, rfl, hk, .nil⟩
  · obtain ⟨a, as₁, ha, h₁⟩ := clean_bind.1 h
    obtain ⟨ts, us, rfl, rfl, hts⟩ := hitem c as a as₁ hlen ha
    rw [clean_get] at h₁
    obtain ⟨xs', as₂, hxs, h₂⟩ := clean_bind.1 h₁
    rw [List.length_append] at hlen
    obtain ⟨vs, us, rfl, rfl, hvs⟩ := more_of_clean hlast hitem (by omega) hxs
    obtain ⟨_, as₃, hexpect, h₃⟩ := clean_bind.1 h₂
    obtain ⟨r, us, rfl, hr, rfl⟩ := (clean_expect hlast hclose).1 hexpect
    obtain ⟨rfl, rfl⟩ := clean_pure.1 h₃
    exact ⟨ts ++ vs, r, us, by simp, rfl, hr, .cons hts hvs⟩

lemma readsItems_parameter (n : Nat) : ReadsItems last faults parameter Param n := by
  intro c as id as' _ h
  rw [parameter] at h
  obtain ⟨_, as₁, hexpect, h₁⟩ := clean_bind.1 h
  obtain ⟨t, rest, rfl, ht, rfl⟩ := (clean_expect hlast (by decide)).1 hexpect
  obtain ⟨rfl, rfl⟩ := clean_pure.1 h₁
  exact ⟨[t], rest, rfl, rfl, .mk ht⟩

/-! ## Statements -/

variable {expression : Precedence → Reader Expr} [∀ context, Forward (expression context)]
  {n : Nat} (hexpr : ReadsPhrases last faults expression n)
include hexpr

omit hlast in
lemma readsItems_operand : ReadsItems last faults (operand expression) Whole n := by
  intro c as e as' hlen h
  rw [operand] at h
  obtain ⟨_, as₁, hadvance, h₁⟩ := clean_bind.1 h
  obtain rfl := clean_advance.1 hadvance
  obtain ⟨p, ts, rest, rfl, rfl, he, -⟩ := hexpr .lowest as e as' hlen h₁
  obtain ⟨t, us, rfl, -⟩ := he.exists_cons
  exact ⟨t :: us, rest, rfl, rfl, .mk he⟩

omit hexpr [∀ context, Forward (expression context)] in
lemma closing_of_clean {c : Token} {as as' : List Token} {u : Unit}
    (h : Clean last faults statementEnd (c :: as) u as') :
    ∃ ts rest, as = ts ++ rest ∧ as' = ts.getLastD c :: rest ∧
      Closing (firstKind rest .eof) ts := by
  have hk : (Cursor.mk (c :: as) last faults).peek.kind = firstKind as .eof := kind_headD hlast as
  rw [statementEnd, clean_get] at h
  dsimp only at h
  rw [hk] at h
  split at h
  · rename_i hsemi
    rcases as with _ | ⟨t, as⟩
    · cases hsemi
    obtain rfl := clean_advance.1 h
    exact ⟨[t], as, rfl, rfl, .semicolon hsemi⟩
  · rename_i hbrace
    obtain ⟨-, rfl⟩ := clean_pure.1 h
    exact ⟨[], as, rfl, rfl, .omitted (Or.inl hbrace)⟩
  · rename_i heof
    obtain ⟨-, rfl⟩ := clean_pure.1 h
    exact ⟨[], as, rfl, rfl, .omitted (Or.inr heof)⟩
  · exact absurd h not_clean_note

lemma sentence_of_clean_binding {t : Token} (ht : t.kind = .kwLet) {as as' : List Token} {s : Stmt}
    (hlen : as.length ≤ n) (h : Clean last faults (binding expression) (t :: as) s as') :
    ∃ ts rest, as = ts ++ rest ∧ as' = ts.getLastD t :: rest ∧
      Sentence (firstKind rest .eof) (t :: ts) s := by
  rw [binding, clean_get] at h
  obtain ⟨_, as₁, hident, h₁⟩ := clean_bind.1 h
  obtain ⟨id, as, rfl, hid, rfl⟩ := (clean_expect hlast (by decide)).1 hident
  rw [clean_get] at h₁
  obtain ⟨_, as₂, hassign, h₂⟩ := clean_bind.1 h₁
  obtain ⟨a, as, rfl, ha, rfl⟩ := (clean_expect hlast (by decide)).1 hassign
  obtain ⟨e, as₃, he, h₃⟩ := clean_bind.1 h₂
  simp only [List.length_cons] at hlen
  obtain ⟨ts, rest, rfl, rfl, hts⟩ := readsItems_operand hexpr a as e as₃ (by omega) he
  obtain ⟨_, as₄, hend, h₄⟩ := clean_bind.1 h₃
  obtain ⟨us, rest, rfl, rfl, hus⟩ := closing_of_clean hlast hend
  obtain ⟨rfl, rfl⟩ := clean_pure.1 h₄
  refine ⟨id :: a :: (ts ++ us), rest, by simp, ?_, .bind ht hid ha hts hus⟩
  simp only [List.getLastD_cons, getLastD_append]

lemma sentence_of_clean_returning {t : Token} (ht : t.kind = .kwReturn) {as as' : List Token}
    {s : Stmt} (hlen : as.length ≤ n)
    (h : Clean last faults (returning expression) (t :: as) s as') :
    ∃ ts rest, as = ts ++ rest ∧ as' = ts.getLastD t :: rest ∧
      Sentence (firstKind rest .eof) (t :: ts) s := by
  rw [returning, clean_get] at h
  obtain ⟨e, as₁, he, h₁⟩ := clean_bind.1 h
  obtain ⟨ts, rest, rfl, rfl, hts⟩ := readsItems_operand hexpr t as e as₁ hlen he
  obtain ⟨_, as₂, hend, h₂⟩ := clean_bind.1 h₁
  obtain ⟨us, rest, rfl, rfl, hus⟩ := closing_of_clean hlast hend
  obtain ⟨rfl, rfl⟩ := clean_pure.1 h₂
  refine ⟨ts ++ us, rest, by simp, ?_, .ret ht hts hus⟩
  rw [getLastD_append]

lemma sentence_of_clean_expressionStatement {as as' : List Token} {s : Stmt}
    (hlen : as.length ≤ n) (h : Clean last faults (expressionStatement expression) as s as') :
    ∃ t ts rest, as = t :: (ts ++ rest) ∧ as' = ts.getLastD t :: rest ∧
      Sentence (firstKind rest .eof) (t :: ts) s := by
  rw [expressionStatement, clean_get] at h
  obtain ⟨e, as₁, he, h₁⟩ := clean_bind.1 h
  obtain ⟨p, ts, rest, rfl, rfl, hts, -, hnext⟩ := hexpr .lowest as e as₁ hlen he
  obtain ⟨t, ts, rfl, -⟩ := hts.exists_cons
  rw [clean_get] at h₁
  split at h₁
  · rename_i hsemi
    have hsemi : firstKind rest .eof = .semicolon := (kind_headD hlast rest).symm.trans hsemi
    rcases rest with _ | ⟨semi, rest⟩
    · cases hsemi
    obtain ⟨_, as₂, hadvance, h₂⟩ := clean_bind.1 h₁
    obtain rfl := clean_advance.1 hadvance
    obtain ⟨rfl, rfl⟩ := clean_pure.1 h₂
    refine ⟨t, ts ++ [semi], rest, by simp, ?_, .expr (.mk hts) (.semicolon hsemi)⟩
    rw [List.getLastD_concat, List.tail_cons]
  · obtain ⟨rfl, rfl⟩ := clean_pure.1 h₁
    refine ⟨t, ts ++ [], rest, by simp, ?_, .expr (.mk hts) (.omitted ?_)⟩
    · rw [List.append_nil, List.getLastD_cons]
    · exact Precedence.not_lt.2 hnext

lemma sentence_of_clean {as as' : List Token} {s : Stmt} (hlen : as.length ≤ n)
    (h : Clean last faults (statement expression) as s as') :
    ∃ t ts rest, as = t :: (ts ++ rest) ∧ as' = ts.getLastD t :: rest ∧
      Sentence (firstKind rest .eof) (t :: ts) s := by
  have hk : (Cursor.mk as last faults).current.kind = firstKind as .eof := kind_headD hlast as
  rw [statement, clean_get, hk] at h
  split at h
  · rename_i hlet
    rcases as with _ | ⟨t, as⟩
    · cases hlet
    rw [List.length_cons] at hlen
    obtain ⟨ts, rest, rfl, rfl, hs⟩ := sentence_of_clean_binding hlast hexpr hlet (by omega) h
    exact ⟨t, ts, rest, rfl, rfl, hs⟩
  · rename_i hreturn
    rcases as with _ | ⟨t, as⟩
    · cases hreturn
    rw [List.length_cons] at hlen
    obtain ⟨ts, rest, rfl, rfl, hs⟩ := sentence_of_clean_returning hlast hexpr hreturn (by omega) h
    exact ⟨t, ts, rest, rfl, rfl, hs⟩
  · exact sentence_of_clean_expressionStatement hlast hexpr hlen h

/-- The statements up to a token that ends them. -/
lemma sentences_of_clean {stop : Kind → Bool} {k : Nat} {as as' : List Token} {ss : List Stmt}
    (hlen : as.length ≤ n) (hk : as.length ≤ k)
    (h : Clean last faults (statementsUntil expression stop k) as ss as') :
    ∃ ts, as = ts ++ as' ∧ Sentences (firstKind as' .eof) ts ss ∧
      (stop (firstKind as' .eof) ∨ firstKind as' .eof = .eof) := by
  induction k generalizing as ss with
  | zero =>
    obtain rfl : as = [] := List.length_eq_zero_iff.1 (Nat.le_zero.1 hk)
    obtain ⟨rfl, rfl⟩ := clean_pure.1 h
    exact ⟨[], rfl, .nil, Or.inr rfl⟩
  | succ k ih =>
    have hkind : (Cursor.mk as last faults).current.kind = firstKind as .eof := kind_headD hlast as
    rw [statementsUntil, clean_get] at h
    dsimp only at h
    rw [hkind] at h
    split at h
    · rename_i hstop
      obtain ⟨rfl, rfl⟩ := clean_pure.1 h
      exact ⟨[], rfl, .nil, by simpa using hstop⟩
    · obtain ⟨r, as₁, hattempt, h₁⟩ := clean_bind.1 h
      obtain ⟨s, rfl, hs⟩ := clean_attempt.1 hattempt
      obtain ⟨t, ts, rest, rfl, rfl, hts⟩ := sentence_of_clean hlast hexpr hlen hs
      obtain ⟨_, as₂, hadvance, h₂⟩ := clean_bind.1 h₁
      obtain rfl := clean_advance.1 hadvance
      obtain ⟨ss', as₃, hrest, h₃⟩ := clean_bind.1 h₂
      obtain ⟨rfl, rfl⟩ := clean_pure.1 h₃
      rw [List.length_cons, List.length_append] at hlen hk
      rw [List.tail_cons] at hrest
      obtain ⟨us, rfl, hus, hstop⟩ := ih (by omega) (by omega) hrest
      -- what follows the first statement is the next one, or what ends them all
      rw [firstKind_append] at hts
      exact ⟨t :: (ts ++ us), by simp, .cons hts hus, hstop⟩

lemma braced_of_clean {l : Token} (hl : l.kind = .lbrace) {as as' : List Token} {b : Block}
    (hlen : as.length ≤ n) (h : Clean last faults (block expression) (l :: as) b as') :
    ∃ ts r rest, as = ts ++ r :: rest ∧ as' = r :: rest ∧ Braced (l :: (ts ++ [r])) b := by
  rw [block, clean_get] at h
  obtain ⟨_, as₁, hadvance, h₁⟩ := clean_bind.1 h
  obtain rfl := clean_advance.1 hadvance
  rw [clean_get] at h₁
  obtain ⟨ss, as₂, hss, h₂⟩ := clean_bind.1 h₁
  obtain ⟨ts, rfl, hts, hstop⟩ := sentences_of_clean hlast hexpr hlen le_rfl hss
  have hkind : (Cursor.mk as₂ last faults).current.kind = firstKind as₂ .eof := kind_headD hlast as₂
  rw [clean_get] at h₂
  dsimp only at h₂
  rw [hkind] at h₂
  split at h₂
  · exact absurd h₂ not_clean_abandon
  · rename_i hne
    obtain ⟨rfl, rfl⟩ := clean_pure.1 h₂
    have hbrace : firstKind as₂ .eof = .rbrace := by simpa using hstop.resolve_right hne
    rcases as₂ with _ | ⟨r, rest⟩
    · exact absurd rfl hne
    · rw [hbrace] at hts
      exact ⟨ts, r, rest, rfl, rfl, .mk hl hts hbrace⟩

/-! ## The left end of an expression -/

lemma phrase_of_clean_group {l : Token} (hl : l.kind = .lparen) {as as' : List Token} {e : Expr}
    (hlen : as.length ≤ n) (h : Clean last faults (group expression) (l :: as) e as') :
    ∃ ts rest, as = ts ++ rest ∧ as' = ts.getLastD l :: rest ∧ Phrase .call (l :: ts) e := by
  rw [group] at h
  obtain ⟨e', as₁, he, h₁⟩ := clean_bind.1 h
  obtain ⟨ts, rest, rfl, rfl, hts⟩ := readsItems_operand hexpr l as e' as₁ hlen he
  obtain ⟨_, as₂, hexpect, h₂⟩ := clean_bind.1 h₁
  obtain ⟨r, rest, rfl, hr, rfl⟩ := (clean_expect hlast (by decide)).1 hexpect
  obtain ⟨rfl, rfl⟩ := clean_pure.1 h₂
  refine ⟨ts ++ [r], rest, by simp, ?_, .group hl hts hr⟩
  rw [List.getLastD_concat]

set_option synthInstance.maxSize 512 in
lemma phrase_of_clean_conditional {t : Token} (ht : t.kind = .kwIf) {as as' : List Token}
    {e : Expr} (hlen : as.length ≤ n)
    (h : Clean last faults (conditional expression) (t :: as) e as') :
    ∃ ts rest, as = ts ++ rest ∧ as' = ts.getLastD t :: rest ∧ Phrase .call (t :: ts) e := by
  rw [conditional, clean_get] at h
  obtain ⟨_, as₁, hexpect, h₁⟩ := clean_bind.1 h
  obtain ⟨l, as, rfl, hl, rfl⟩ := (clean_expect hlast (by decide)).1 hexpect
  obtain ⟨c, as₂, hc, h₂⟩ := clean_bind.1 h₁
  rw [List.length_cons] at hlen
  obtain ⟨ts, as, rfl, rfl, hts⟩ := readsItems_operand hexpr l as c as₂ (by omega) hc
  obtain ⟨_, as₃, hexpect, h₃⟩ := clean_bind.1 h₂
  obtain ⟨r, as, rfl, hr, rfl⟩ := (clean_expect hlast (by decide)).1 hexpect
  obtain ⟨_, as₄, hexpect, h₄⟩ := clean_bind.1 h₃
  obtain ⟨lb, as, rfl, hlb, rfl⟩ := (clean_expect hlast (by decide)).1 hexpect
  obtain ⟨b, as₅, hb, h₅⟩ := clean_bind.1 h₄
  simp only [List.length_append, List.length_cons] at hlen
  obtain ⟨us, rb, as, rfl, rfl, hus⟩ := braced_of_clean hlast hexpr hlb (by omega) hb
  rw [clean_get] at h₅
  split at h₅
  · -- the second branch
    rename_i helse
    have helse : firstKind as .eof = .kwElse := (kind_headD hlast as).symm.trans helse
    rcases as with _ | ⟨el, as⟩
    · cases helse
    obtain ⟨_, as₆, hadvance, h₆⟩ := clean_bind.1 h₅
    obtain rfl := clean_advance.1 hadvance
    obtain ⟨_, as₇, hexpect, h₇⟩ := clean_bind.1 h₆
    obtain ⟨lb', as, rfl, hlb', rfl⟩ := (clean_expect hlast (by decide)).1 hexpect
    obtain ⟨b', as₈, hb', h₈⟩ := clean_bind.1 h₇
    simp only [List.length_append, List.length_cons] at hlen
    obtain ⟨vs, rb', as, rfl, rfl, hvs⟩ := braced_of_clean hlast hexpr hlb' (by omega) hb'
    obtain ⟨rfl, rfl⟩ := clean_pure.1 h₈
    refine ⟨l :: (ts ++ r :: ((lb :: (us ++ [rb])) ++ el :: (lb' :: (vs ++ [rb'])))), as,
      by simp, ?_, .condElse ht hl hts hr hus helse hvs⟩
    simp only [List.getLastD_cons, getLastD_append, List.getLastD_nil]
  · obtain ⟨rfl, rfl⟩ := clean_pure.1 h₅
    refine ⟨l :: (ts ++ r :: (lb :: (us ++ [rb]))), as, by simp, ?_, .cond ht hl hts hr hus⟩
    simp only [List.getLastD_cons, getLastD_append, List.getLastD_nil]

lemma phrase_of_clean_function {t : Token} (ht : t.kind = .kwFunction) {as as' : List Token}
    {e : Expr} (hlen : as.length ≤ n)
    (h : Clean last faults (function expression) (t :: as) e as') :
    ∃ ts rest, as = ts ++ rest ∧ as' = ts.getLastD t :: rest ∧ Phrase .call (t :: ts) e := by
  rw [function, clean_get] at h
  obtain ⟨_, as₁, hexpect, h₁⟩ := clean_bind.1 h
  obtain ⟨l, as, rfl, hl, rfl⟩ := (clean_expect hlast (by decide)).1 hexpect
  obtain ⟨ids, as₂, hids, h₂⟩ := clean_bind.1 h₁
  rw [List.length_cons] at hlen
  obtain ⟨ts, r, as, rfl, rfl, hr, hts⟩ :=
    listed_of_clean hlast (readsItems_parameter hlast n) (by decide) (by omega) hids
  obtain ⟨_, as₃, hexpect, h₃⟩ := clean_bind.1 h₂
  obtain ⟨lb, as, rfl, hlb, rfl⟩ := (clean_expect hlast (by decide)).1 hexpect
  obtain ⟨b, as₄, hb, h₄⟩ := clean_bind.1 h₃
  simp only [List.length_append, List.length_cons] at hlen
  obtain ⟨us, rb, as, rfl, rfl, hus⟩ := braced_of_clean hlast hexpr hlb (by omega) hb
  obtain ⟨rfl, rfl⟩ := clean_pure.1 h₄
  refine ⟨l :: (ts ++ r :: (lb :: (us ++ [rb]))), as, by simp, ?_, .function ht hl hts hr hus⟩
  simp only [List.getLastD_cons, getLastD_append, List.getLastD_nil]

lemma phrase_of_clean_array {l : Token} (hl : l.kind = .lbracket) {as as' : List Token} {e : Expr}
    (hlen : as.length ≤ n) (h : Clean last faults (array expression) (l :: as) e as') :
    ∃ ts rest, as = ts ++ rest ∧ as' = ts.getLastD l :: rest ∧ Phrase .call (l :: ts) e := by
  rw [array, clean_get] at h
  obtain ⟨es, as₁, hes, h₁⟩ := clean_bind.1 h
  obtain ⟨ts, r, as, rfl, rfl, hr, hts⟩ :=
    listed_of_clean hlast (readsItems_operand hexpr) (by decide) hlen hes
  obtain ⟨rfl, rfl⟩ := clean_pure.1 h₁
  refine ⟨ts ++ [r], as, by simp, ?_, .array hl hts hr⟩
  rw [List.getLastD_concat]

omit hlast in
lemma phrase_of_clean_unary {t : Token} {op : UnaryOp} (ht : t.kind.unaryOp? = some op)
    {as as' : List Token} {e : Expr} (hlen : as.length ≤ n)
    (h : Clean last faults (unary expression op) (t :: as) e as') :
    ∃ ts rest, as = ts ++ rest ∧ as' = ts.getLastD t :: rest ∧ Phrase .unary (t :: ts) e ∧
      (firstKind rest .eof).precedence ≤ .unary := by
  rw [unary, clean_get] at h
  obtain ⟨_, as₁, hadvance, h₁⟩ := clean_bind.1 h
  obtain rfl := clean_advance.1 hadvance
  obtain ⟨e', as₂, he, h₂⟩ := clean_bind.1 h₁
  obtain ⟨p, ts, rest, rfl, rfl, hts, hadmits, hnext⟩ := hexpr .unary as e' as₂ hlen he
  obtain ⟨rfl, rfl⟩ := clean_pure.1 h₂
  have hp : .unary ≤ p := hadmits.elim Nat.le_of_lt id
  obtain ⟨u, us, rfl, -⟩ := hts.exists_cons
  exact ⟨u :: us, rest, rfl, rfl, .unary ht hp hts, hnext⟩

omit hlast hexpr [∀ context, Forward (expression context)] in
lemma phrase_of_clean_integer {t : Token} (ht : t.kind = .int) {as as' : List Token} {e : Expr}
    (h : Clean last faults integer (t :: as) e as') : as' = t :: as ∧ Phrase .call [t] e := by
  rw [integer, clean_get] at h
  dsimp only at h
  split at h
  · rename_i value hvalue
    obtain ⟨rfl, rfl⟩ := clean_pure.1 h
    exact ⟨rfl, .int ht (Number.ofInt?_eq_some_iff.1 hvalue)⟩
  · exact absurd h not_clean_abandon

/-- What an expression starts with is a phrase that no token behind it holds more tightly than its
own level. -/
lemma phrase_of_clean_leftEnd {as as' : List Token} {e : Expr} (hlen : as.length ≤ n + 1)
    (h : Clean last faults (leftEnd expression) as e as') :
    ∃ p t ts rest, as = t :: (ts ++ rest) ∧ as' = ts.getLastD t :: rest ∧ Phrase p (t :: ts) e ∧
      .unary ≤ p ∧ (firstKind rest .eof).precedence ≤ p := by
  rw [leftEnd, clean_get] at h
  dsimp only at h
  rcases as with _ | ⟨t, as⟩
  · have hkind : (Cursor.mk [] last faults).current.kind = .eof := hlast
    rw [hkind] at h
    exact absurd h not_clean_noExpression
  rw [List.length_cons, Nat.add_le_add_iff_right] at hlen
  -- a phrase that shows its own ends is of the tightest level
  have closed : ∀ {ts rest}, as = ts ++ rest → as' = ts.getLastD t :: rest →
      Phrase .call (t :: ts) e →
      ∃ p u us rest, t :: as = u :: (us ++ rest) ∧ as' = us.getLastD u :: rest ∧
        Phrase p (u :: us) e ∧ .unary ≤ p ∧ (firstKind rest .eof).precedence ≤ p := by
    rintro ts rest rfl rfl hp
    exact ⟨.call, t, ts, rest, rfl, rfl, hp, by decide, Precedence.le_call _⟩
  split at h
  · rename_i hk
    obtain ⟨rfl, rfl⟩ := clean_pure.1 h
    exact closed rfl rfl (.ident hk)
  · rename_i hk
    obtain ⟨rfl, hp⟩ := phrase_of_clean_integer hk h
    exact closed rfl rfl hp
  · rename_i hk
    obtain ⟨rfl, rfl⟩ := clean_pure.1 h
    exact closed rfl rfl (.str hk)
  · rename_i hk
    obtain ⟨rfl, rfl⟩ := clean_pure.1 h
    exact closed rfl rfl (.true hk)
  · rename_i hk
    obtain ⟨rfl, rfl⟩ := clean_pure.1 h
    exact closed rfl rfl (.false hk)
  · rename_i hk
    have hop : t.kind.unaryOp? = some .not := congrArg Kind.unaryOp? hk
    obtain ⟨ts, rest, rfl, rfl, hp, hnext⟩ := phrase_of_clean_unary hexpr hop hlen h
    exact ⟨.unary, t, ts, rest, rfl, rfl, hp, Nat.le_refl _, hnext⟩
  · rename_i hk
    have hop : t.kind.unaryOp? = some .neg := congrArg Kind.unaryOp? hk
    obtain ⟨ts, rest, rfl, rfl, hp, hnext⟩ := phrase_of_clean_unary hexpr hop hlen h
    exact ⟨.unary, t, ts, rest, rfl, rfl, hp, Nat.le_refl _, hnext⟩
  · rename_i hk
    obtain ⟨ts, rest, rfl, rfl, hp⟩ := phrase_of_clean_group hlast hexpr hk hlen h
    exact closed rfl rfl hp
  · rename_i hk
    obtain ⟨ts, rest, rfl, rfl, hp⟩ := phrase_of_clean_conditional hlast hexpr hk hlen h
    exact closed rfl rfl hp
  · rename_i hk
    obtain ⟨ts, rest, rfl, rfl, hp⟩ := phrase_of_clean_function hlast hexpr hk hlen h
    exact closed rfl rfl hp
  · rename_i hk
    obtain ⟨ts, rest, rfl, rfl, hp⟩ := phrase_of_clean_array hlast hexpr hk hlen h
    exact closed rfl rfl hp
  · exact absurd h not_clean_noExpression

/-! ## What continues an expression -/

/-- A phrase continued by a token that holds it no more tightly than its level does is a phrase
again, and what follows holds that one no more tightly than its level does. -/
lemma phrase_of_clean_continuation {context p : Precedence} {ts : List Token} {left : Expr}
    (hleft : Phrase p ts left) {t : Token} (hcontext : context < t.kind.precedence)
    (hp : t.kind.precedence ≤ p) {as as' : List Token} {e : Expr} (hlen : as.length ≤ n)
    (h : Clean last faults (continuation expression left) (t :: as) e as') :
    ∃ q us rest, as = us ++ rest ∧ as' = us.getLastD t :: rest ∧ Phrase q (ts ++ t :: us) e ∧
      context < q ∧ (firstKind rest .eof).precedence ≤ q := by
  rw [continuation, clean_get] at h
  dsimp only at h
  have hcurrent : (Cursor.mk (t :: as) last faults).current = t := rfl
  rw [hcurrent] at h
  split at h
  · rename_i hk
    rw [hk] at hp hcontext
    obtain rfl : p = .call := Precedence.eq_call_of_le hp
    obtain ⟨args, as₁, hargs, h₁⟩ := clean_bind.1 h
    obtain ⟨us, r, rest, rfl, rfl, hr, hus⟩ :=
      listed_of_clean hlast (readsItems_operand hexpr) (by decide) hlen hargs
    obtain ⟨rfl, rfl⟩ := clean_pure.1 h₁
    refine ⟨.call, us ++ [r], rest, by simp, ?_, .call hleft hk hus hr, hcontext,
      Precedence.le_call _⟩
    rw [List.getLastD_concat]
  · rename_i hk
    rw [hk] at hp hcontext
    obtain rfl : p = .call := Precedence.eq_call_of_le hp
    obtain ⟨index, as₁, hindex, h₁⟩ := clean_bind.1 h
    obtain ⟨us, rest, rfl, rfl, hus⟩ := readsItems_operand hexpr t as index as₁ hlen hindex
    obtain ⟨_, as₂, hexpect, h₂⟩ := clean_bind.1 h₁
    obtain ⟨r, rest, rfl, hr, rfl⟩ := (clean_expect hlast (by decide)).1 hexpect
    obtain ⟨rfl, rfl⟩ := clean_pure.1 h₂
    refine ⟨.call, us ++ [r], rest, by simp, ?_, .index hleft hk hus hr, hcontext,
      Precedence.le_call _⟩
    rw [List.getLastD_concat]
  · split at h
    · rename_i op hop
      obtain ⟨_, as₁, hadvance, h₁⟩ := clean_bind.1 h
      obtain rfl := clean_advance.1 hadvance
      obtain ⟨right, as₂, hright, h₂⟩ := clean_bind.1 h₁
      obtain ⟨q, us, rest, rfl, rfl, hus, hadmits, hnext⟩ := hexpr _ as right as₂ hlen hright
      obtain ⟨rfl, rfl⟩ := clean_pure.1 h₂
      rw [Kind.precedence_of_binaryOp? hop] at hp hcontext hadmits hnext
      have hphrase := Phrase.binary hop hp hleft (BinaryOp.lt_of_admits hadmits) hus
      obtain ⟨u, us, rfl, -⟩ := hus.exists_cons
      exact ⟨op.precedence, u :: us, rest, rfl, rfl, hphrase, hcontext, hnext⟩
    · -- no other token holds what stands on its left
      rename_i hparen hbracket hop
      have hlow : t.kind.precedence = .lowest := by
        cases hk : t.kind <;> simp_all [Kind.binaryOp?, Kind.precedence]
      rw [hlow] at hcontext
      exact absurd hcontext (Nat.not_lt_zero _)

/-- The loop keeps a phrase that the next token holds no more tightly than its level does. When it
ends, the next token holds it no more tightly than the context does. -/
lemma phrase_of_clean_continuations {context p : Precedence} {k : Nat} {c : Token}
    {ts as as' : List Token} {left e : Expr} (hleft : Phrase p ts left)
    (hadmits : context.Admits p) (hp : (firstKind as .eof).precedence ≤ p) (hlen : as.length ≤ n)
    (hk : as.length ≤ k)
    (h : Clean last faults (continuations expression context k left) (c :: as) e as') :
    ∃ q us rest, as = us ++ rest ∧ as' = us.getLastD c :: rest ∧ Phrase q (ts ++ us) e ∧
      context.Admits q ∧ (firstKind rest .eof).precedence ≤ context := by
  induction k generalizing p c ts as left with
  | zero =>
    obtain rfl : as = [] := List.length_eq_zero_iff.1 (Nat.le_zero.1 hk)
    obtain ⟨rfl, rfl⟩ := clean_pure.1 h
    exact ⟨p, [], [], rfl, rfl, by rwa [List.append_nil], hadmits, Nat.zero_le _⟩
  | succ k ih =>
    have hkind : (Cursor.mk (c :: as) last faults).peek.kind = firstKind as .eof :=
      kind_headD hlast as
    rw [continuations, clean_get, hkind] at h
    split at h
    · rename_i hcontext
      rcases as with _ | ⟨t, as⟩
      · exact absurd hcontext (Nat.not_lt_zero _)
      obtain ⟨_, as₁, hadvance, h₁⟩ := clean_bind.1 h
      obtain rfl := clean_advance.1 hadvance
      obtain ⟨left', as₂, hleft', h₂⟩ := clean_bind.1 h₁
      rw [List.length_cons] at hlen hk
      obtain ⟨q, us, rest, rfl, rfl, hus, hq, hnext⟩ :=
        phrase_of_clean_continuation hlast hexpr hleft hcontext hp (by omega) hleft'
      rw [List.length_append] at hlen hk
      obtain ⟨r, vs, rest, rfl, rfl, hvs, hr⟩ :=
        ih hus (Or.inl hq) hnext (by omega) (by omega) h₂
      refine ⟨r, t :: (us ++ vs), rest, by simp, ?_, by simpa using hvs, hr⟩
      rw [List.getLastD_cons, getLastD_append]
    · rename_i hcontext
      obtain ⟨rfl, rfl⟩ := clean_pure.1 h
      exact ⟨p, [], as, rfl, rfl, by rwa [List.append_nil], hadmits,
        Precedence.not_lt.1 hcontext⟩

end

/-! ## Expressions and programs -/

lemma readsPhrases_expressionWithin (hlast : last.kind = .eof) (n : Nat) :
    ReadsPhrases last faults (expressionWithin n) n := by
  induction n with
  | zero =>
    intro context as e as' _ h
    exact absurd h not_clean_noExpression
  | succ n ih =>
    intro context as e as' hlen h
    rw [expressionWithin] at h
    obtain ⟨left, as₁, hleft, h₁⟩ := clean_bind.1 h
    obtain ⟨p, t, ts, rest, rfl, rfl, hts, hunary, hnext⟩ :=
      phrase_of_clean_leftEnd hlast ih hlen hleft
    rw [clean_get] at h₁
    simp only [List.length_cons, List.length_append] at hlen
    obtain ⟨q, us, rest, rfl, rfl, hus, hadmits, hcontext⟩ :=
      phrase_of_clean_continuations hlast ih hts (Or.inr hunary) hnext (by omega)
        (Nat.le_succ _) h₁
    refine ⟨q, t :: (ts ++ us), rest, by simp, ?_, hus, hadmits, hcontext⟩
    rw [List.getLastD_cons, getLastD_append]

/-- A text read without a fault is derived by the grammar, and its tree is the one that was read. -/
lemma derives_of_clean (hlast : last.kind = .eof) {as as' : List Token} {p : Program}
    (h : Clean last faults program as p as') (has : ∀ t ∈ as, t.kind ≠ .eof) : Derives as p := by
  rw [program, clean_get] at h
  obtain ⟨ss, as₁, hss, h₁⟩ := clean_bind.1 h
  obtain ⟨rfl, rfl⟩ := clean_pure.1 h₁
  obtain ⟨ts, rfl, hts, hstop⟩ :=
    sentences_of_clean hlast (readsPhrases_expressionWithin hlast _) le_rfl le_rfl hss
  rcases as₁ with _ | ⟨t, rest⟩
  · rwa [List.append_nil]
  · have heof : t.kind = .eof := by simpa using hstop
    exact absurd heof (has t (by simp))

end Reader

end Bhasha
