import Bhasha.Proofs.Token.Respelling
import Bhasha.Proofs.Tree.Erasure
import Bhasha.Proofs.Tree.Grammar
import Bhasha.Proofs.Tree.Relabelling

/-!
Trees without their tokens.

A tree keeps the tokens it was read from. Without them only its meaning is left: names, values and
operators have a place of their own in the tree. Erasing places leaves no less than that, and
tokens that are alike are read as trees that are the same without their tokens.
-/

namespace Bhasha

/-- One token takes the place of all. -/
def Relabelling.bare : Relabelling where
  token _ := default
  name n := n
  line _ := 0
  line_token _ := rfl

@[simp] lemma Relabelling.token_bare (t : Token) : Relabelling.bare.token t = default := rfl

lemma Identifier.relabel_bare (id : Identifier) : id.relabel .bare = ⟨default, id.name⟩ := rfl

/-! ## Erased places -/

mutual

/-- Erasing places changes tokens only. -/
lemma Expr.relabel_bare_erase : ∀ e : Expr, e.erase.relabel .bare = e.relabel .bare
  | .ident _ | .int _ _ | .str _ _ | .bool _ _ => rfl
  | .unary _ _ e => by simp [Expr.erase, Expr.relabel, e.relabel_bare_erase]
  | .binary _ _ left right => by
    simp [Expr.erase, Expr.relabel, left.relabel_bare_erase, right.relabel_bare_erase]
  | .cond _ c b none => by
    simp [Expr.erase, Expr.relabel, c.relabel_bare_erase, b.relabel_bare_erase]
  | .cond _ c b (some b') => by
    simp [Expr.erase, Expr.relabel, c.relabel_bare_erase, b.relabel_bare_erase,
      b'.relabel_bare_erase]
  | .function _ ids b => by
    simp [Expr.erase, Expr.relabel, Identifier.relabel_bare, Identifier.erase,
      b.relabel_bare_erase]
  | .call _ callee args => by
    simp [Expr.erase, Expr.relabel, callee.relabel_bare_erase, Expr.relabelAll_bare_eraseAll args]
  | .array _ es => by simp [Expr.erase, Expr.relabel, Expr.relabelAll_bare_eraseAll es]
  | .index _ base index => by
    simp [Expr.erase, Expr.relabel, base.relabel_bare_erase, index.relabel_bare_erase]

lemma Expr.relabelAll_bare_eraseAll : ∀ es : List Expr,
    Expr.relabelAll .bare (Expr.eraseAll es) = Expr.relabelAll .bare es
  | [] => rfl
  | e :: es => by
    rw [Expr.eraseAll, Expr.relabelAll, Expr.relabelAll, e.relabel_bare_erase,
      Expr.relabelAll_bare_eraseAll es]

lemma Stmt.relabel_bare_erase : ∀ s : Stmt, s.erase.relabel .bare = s.relabel .bare
  | .bind _ _ e => by
    simp [Stmt.erase, Stmt.relabel, Identifier.relabel_bare, Identifier.erase,
      e.relabel_bare_erase]
  | .ret _ e | .expr _ e => by simp [Stmt.erase, Stmt.relabel, e.relabel_bare_erase]

lemma Stmt.relabelAll_bare_eraseAll : ∀ ss : List Stmt,
    Stmt.relabelAll .bare (Stmt.eraseAll ss) = Stmt.relabelAll .bare ss
  | [] => rfl
  | s :: ss => by
    rw [Stmt.eraseAll, Stmt.relabelAll, Stmt.relabelAll, s.relabel_bare_erase,
      Stmt.relabelAll_bare_eraseAll ss]

lemma Block.relabel_bare_erase : ∀ b : Block, b.erase.relabel .bare = b.relabel .bare
  | .mk _ ss => by simp [Block.erase, Block.relabel, Stmt.relabelAll_bare_eraseAll ss]

end

lemma Program.relabel_bare_eq_of_erase_eq {p q : Program} (h : p.erase = q.erase) :
    p.relabel .bare = q.relabel .bare := by
  have herase : ∀ p : Program, p.erase.relabel .bare = p.relabel .bare :=
    fun p => congrArg Program.mk (Stmt.relabelAll_bare_eraseAll p.statements)
  rw [← herase p, h, herase]

/-! ## Tokens that are alike -/

lemma exists_append_of_forall₂ {α β : Type} {R : α → β → Prop} {as bs : List α} {cs : List β}
    (h : List.Forall₂ R (as ++ bs) cs) :
    ∃ as' bs', cs = as' ++ bs' ∧ List.Forall₂ R as as' ∧ List.Forall₂ R bs bs' := by
  induction as generalizing cs with
  | nil => exact ⟨[], cs, rfl, .nil, h⟩
  | cons a as ih =>
    rcases h with _ | ⟨ha, h⟩
    obtain ⟨as', bs', rfl, has, hbs⟩ := ih h
    exact ⟨_ :: as', bs', rfl, .cons ha has, hbs⟩

namespace Grammar

variable {ts ts' : List Token} {next : Kind}

lemma firstKind_of_alike (h : List.Forall₂ Token.Alike ts ts') (next : Kind) :
    firstKind ts' next = firstKind ts next := by
  cases h with
  | nil => rfl
  | cons ht _ => exact ht.kind

lemma Closing.of_alike (hts : Closing next ts) (h : List.Forall₂ Token.Alike ts ts') :
    Closing next ts' := by
  cases hts with
  | semicolon ht =>
    rcases h with _ | ⟨ht', ⟨⟩⟩
    exact .semicolon (ht'.kind.trans ht)
  | omitted hnext =>
    cases h
    exact .omitted hnext

lemma Ending.of_alike (hts : Ending next ts) (h : List.Forall₂ Token.Alike ts ts') :
    Ending next ts' := by
  cases hts with
  | semicolon ht =>
    rcases h with _ | ⟨ht', ⟨⟩⟩
    exact .semicolon (ht'.kind.trans ht)
  | omitted hnext =>
    cases h
    exact .omitted hnext

lemma Param.of_alike {id : Identifier} (hts : Param ts id) (h : List.Forall₂ Token.Alike ts ts') :
    ∃ id', Param ts' id' ∧ id'.relabel .bare = id.relabel .bare := by
  obtain ⟨ht⟩ := hts
  rcases h with _ | ⟨ht', ⟨⟩⟩
  refine ⟨_, ⟨ht'.kind.trans ht⟩, ?_⟩
  rw [Identifier.relabel_bare, Identifier.relabel_bare, ht'.literal (Or.inl ht)]

lemma more_params_of_alike {ids : List Identifier} (hts : More Param ts ids)
    (h : List.Forall₂ Token.Alike ts ts') :
    ∃ ids', More Param ts' ids' ∧
      ids'.map (Identifier.relabel .bare) = ids.map (Identifier.relabel .bare) := by
  induction hts generalizing ts' with
  | nil =>
    cases h
    exact ⟨[], .nil, rfl⟩
  | cons hcomma hid _ ih =>
    rcases h with _ | ⟨hcomma', h⟩
    obtain ⟨us, vs, rfl, hus, hvs⟩ := exists_append_of_forall₂ h
    obtain ⟨id', hid', heq⟩ := hid.of_alike hus
    obtain ⟨ids', hids', heqs⟩ := ih hvs
    exact ⟨id' :: ids', .cons (hcomma'.kind.trans hcomma) hid' hids',
      by rw [List.map_cons, List.map_cons, heq, heqs]⟩

lemma listed_params_of_alike {ids : List Identifier} (hts : Listed Param ts ids)
    (h : List.Forall₂ Token.Alike ts ts') :
    ∃ ids', Listed Param ts' ids' ∧
      ids'.map (Identifier.relabel .bare) = ids.map (Identifier.relabel .bare) := by
  cases hts with
  | nil =>
    cases h
    exact ⟨[], .nil, rfl⟩
  | cons hid hids =>
    obtain ⟨us, vs, rfl, hus, hvs⟩ := exists_append_of_forall₂ h
    obtain ⟨id', hid', heq⟩ := hid.of_alike hus
    obtain ⟨ids', hids', heqs⟩ := more_params_of_alike hids hvs
    exact ⟨id' :: ids', .cons hid' hids', by rw [List.map_cons, List.map_cons, heq, heqs]⟩

mutual

/-- Tokens that are alike are read alike. -/
lemma Phrase.of_alike : ∀ {p : Precedence} {ts : List Token} {e : Expr}, Phrase p ts e →
    ∀ {ts' : List Token}, List.Forall₂ Token.Alike ts ts' →
      ∃ e', Phrase p ts' e' ∧ e'.relabel .bare = e.relabel .bare
  | _, _, _, .ident ht, _, h => by
    rcases h with _ | ⟨ht', ⟨⟩⟩
    refine ⟨_, .ident (ht'.kind.trans ht), ?_⟩
    simp [Expr.relabel, Identifier.relabel_bare, ht'.literal (Or.inl ht)]
  | _, _, _, .int ht hn, _, h => by
    rcases h with _ | ⟨ht', ⟨⟩⟩
    rw [← ht'.literal (Or.inr (Or.inl ht))] at hn
    exact ⟨_, .int (ht'.kind.trans ht) hn, rfl⟩
  | _, _, _, .str ht, _, h => by
    rcases h with _ | ⟨ht', ⟨⟩⟩
    refine ⟨_, .str (ht'.kind.trans ht), ?_⟩
    simp [Expr.relabel, ht'.literal (Or.inr (Or.inr ht))]
  | _, _, _, .true ht, _, h => by
    rcases h with _ | ⟨ht', ⟨⟩⟩
    exact ⟨_, .true (ht'.kind.trans ht), rfl⟩
  | _, _, _, .false ht, _, h => by
    rcases h with _ | ⟨ht', ⟨⟩⟩
    exact ⟨_, .false (ht'.kind.trans ht), rfl⟩
  | _, _, _, .group hl he hr, _, h => by
    rcases h with _ | ⟨hl', h⟩
    obtain ⟨us, _, rfl, hus, _ | ⟨hr', ⟨⟩⟩⟩ := exists_append_of_forall₂ h
    obtain ⟨e', he', heq⟩ := he.of_alike hus
    exact ⟨e', .group (hl'.kind.trans hl) he' (hr'.kind.trans hr), heq⟩
  | _, _, _, .cond ht hl hc hr hb, _, h => by
    rcases h with _ | ⟨ht', _ | ⟨hl', h⟩⟩
    obtain ⟨us, _, rfl, hus, _ | ⟨hr', hvs⟩⟩ := exists_append_of_forall₂ h
    obtain ⟨c', hc', heqc⟩ := hc.of_alike hus
    obtain ⟨b', hb', heqb⟩ := hb.of_alike hvs
    refine ⟨_, .cond (ht'.kind.trans ht) (hl'.kind.trans hl) hc' (hr'.kind.trans hr) hb', ?_⟩
    simp [Expr.relabel, heqc, heqb]
  | _, _, _, .condElse ht hl hc hr hb hel hd, _, h => by
    rcases h with _ | ⟨ht', _ | ⟨hl', h⟩⟩
    obtain ⟨us, _, rfl, hus, _ | ⟨hr', h'⟩⟩ := exists_append_of_forall₂ h
    obtain ⟨vs, _, rfl, hvs, _ | ⟨hel', hws⟩⟩ := exists_append_of_forall₂ h'
    obtain ⟨c', hc', heqc⟩ := hc.of_alike hus
    obtain ⟨b', hb', heqb⟩ := hb.of_alike hvs
    obtain ⟨d', hd', heqd⟩ := hd.of_alike hws
    refine ⟨_, .condElse (ht'.kind.trans ht) (hl'.kind.trans hl) hc' (hr'.kind.trans hr) hb'
      (hel'.kind.trans hel) hd', ?_⟩
    simp [Expr.relabel, heqc, heqb, heqd]
  | _, _, _, .function ht hl hids hr hb, _, h => by
    rcases h with _ | ⟨ht', _ | ⟨hl', h⟩⟩
    obtain ⟨us, _, rfl, hus, _ | ⟨hr', hvs⟩⟩ := exists_append_of_forall₂ h
    obtain ⟨ids', hids', heqids⟩ := listed_params_of_alike hids hus
    obtain ⟨b', hb', heqb⟩ := hb.of_alike hvs
    refine ⟨_, .function (ht'.kind.trans ht) (hl'.kind.trans hl) hids' (hr'.kind.trans hr) hb', ?_⟩
    rw [Expr.relabel, Expr.relabel, heqids, heqb, Relabelling.token_bare, Relabelling.token_bare]
  | _, _, _, .array hl hes hr, _, h => by
    rcases h with _ | ⟨hl', h⟩
    obtain ⟨us, _, rfl, hus, _ | ⟨hr', ⟨⟩⟩⟩ := exists_append_of_forall₂ h
    obtain ⟨es', hes', heq⟩ := listed_of_alike hes hus
    refine ⟨_, .array (hl'.kind.trans hl) hes' (hr'.kind.trans hr), ?_⟩
    simp [Expr.relabel, heq]
  | _, _, _, .call hcallee hl hargs hr, _, h => by
    obtain ⟨us, _, rfl, hus, _ | ⟨hl', h'⟩⟩ := exists_append_of_forall₂ h
    obtain ⟨vs, _, rfl, hvs, _ | ⟨hr', ⟨⟩⟩⟩ := exists_append_of_forall₂ h'
    obtain ⟨callee', hcallee', heq⟩ := hcallee.of_alike hus
    obtain ⟨args', hargs', heqs⟩ := listed_of_alike hargs hvs
    refine ⟨_, .call hcallee' (hl'.kind.trans hl) hargs' (hr'.kind.trans hr), ?_⟩
    simp [Expr.relabel, heq, heqs]
  | _, _, _, .index hbase hl hindex hr, _, h => by
    obtain ⟨us, _, rfl, hus, _ | ⟨hl', h'⟩⟩ := exists_append_of_forall₂ h
    obtain ⟨vs, _, rfl, hvs, _ | ⟨hr', ⟨⟩⟩⟩ := exists_append_of_forall₂ h'
    obtain ⟨base', hbase', heq⟩ := hbase.of_alike hus
    obtain ⟨index', hindex', heq'⟩ := hindex.of_alike hvs
    refine ⟨_, .index hbase' (hl'.kind.trans hl) hindex' (hr'.kind.trans hr), ?_⟩
    simp [Expr.relabel, heq, heq']
  | _, _, _, .unary hop hp he, _, h => by
    rcases h with _ | ⟨ht', h⟩
    obtain ⟨e', he', heq⟩ := he.of_alike h
    refine ⟨_, .unary (by rw [ht'.kind]; exact hop) hp he', ?_⟩
    simp [Expr.relabel, heq]
  | _, _, _, .binary hop hp hleft hq hright, _, h => by
    obtain ⟨us, _, rfl, hus, _ | ⟨ht', hvs⟩⟩ := exists_append_of_forall₂ h
    obtain ⟨left', hleft', heq⟩ := hleft.of_alike hus
    obtain ⟨right', hright', heq'⟩ := hright.of_alike hvs
    refine ⟨_, .binary (by rw [ht'.kind]; exact hop) hp hleft' hq hright', ?_⟩
    simp [Expr.relabel, heq, heq']

lemma Whole.of_alike : ∀ {ts : List Token} {e : Expr}, Whole ts e →
    ∀ {ts' : List Token}, List.Forall₂ Token.Alike ts ts' →
      ∃ e', Whole ts' e' ∧ e'.relabel .bare = e.relabel .bare
  | _, _, .mk he, _, h => by
    obtain ⟨e', he', heq⟩ := he.of_alike h
    exact ⟨e', .mk he', heq⟩

lemma more_of_alike : ∀ {ts : List Token} {es : List Expr}, More Whole ts es →
    ∀ {ts' : List Token}, List.Forall₂ Token.Alike ts ts' →
      ∃ es', More Whole ts' es' ∧ Expr.relabelAll .bare es' = Expr.relabelAll .bare es
  | _, _, .nil, _, h => by
    cases h
    exact ⟨[], .nil, rfl⟩
  | _, _, .cons hcomma he hes, _, h => by
    rcases h with _ | ⟨hcomma', h⟩
    obtain ⟨us, vs, rfl, hus, hvs⟩ := exists_append_of_forall₂ h
    obtain ⟨e', he', heq⟩ := he.of_alike hus
    obtain ⟨es', hes', heqs⟩ := more_of_alike hes hvs
    exact ⟨e' :: es', .cons (hcomma'.kind.trans hcomma) he' hes',
      by rw [Expr.relabelAll, Expr.relabelAll, heq, heqs]⟩

lemma listed_of_alike : ∀ {ts : List Token} {es : List Expr}, Listed Whole ts es →
    ∀ {ts' : List Token}, List.Forall₂ Token.Alike ts ts' →
      ∃ es', Listed Whole ts' es' ∧ Expr.relabelAll .bare es' = Expr.relabelAll .bare es
  | _, _, .nil, _, h => by
    cases h
    exact ⟨[], .nil, rfl⟩
  | _, _, .cons he hes, _, h => by
    obtain ⟨us, vs, rfl, hus, hvs⟩ := exists_append_of_forall₂ h
    obtain ⟨e', he', heq⟩ := he.of_alike hus
    obtain ⟨es', hes', heqs⟩ := more_of_alike hes hvs
    exact ⟨e' :: es', .cons he' hes', by rw [Expr.relabelAll, Expr.relabelAll, heq, heqs]⟩

lemma Sentence.of_alike : ∀ {next : Kind} {ts : List Token} {s : Stmt}, Sentence next ts s →
    ∀ {ts' : List Token}, List.Forall₂ Token.Alike ts ts' →
      ∃ s', Sentence next ts' s' ∧ s'.relabel .bare = s.relabel .bare
  | _, _, _, .bind ht hid ha he hend, _, h => by
    rcases h with _ | ⟨ht', _ | ⟨hid', _ | ⟨ha', h⟩⟩⟩
    obtain ⟨us, vs, rfl, hus, hvs⟩ := exists_append_of_forall₂ h
    obtain ⟨e', he', heq⟩ := he.of_alike hus
    refine ⟨_, .bind (ht'.kind.trans ht) (hid'.kind.trans hid) (ha'.kind.trans ha) he'
      (hend.of_alike hvs), ?_⟩
    simp [Stmt.relabel, Identifier.relabel_bare, heq, hid'.literal (Or.inl hid)]
  | _, _, _, .ret ht he hend, _, h => by
    rcases h with _ | ⟨ht', h⟩
    obtain ⟨us, vs, rfl, hus, hvs⟩ := exists_append_of_forall₂ h
    obtain ⟨e', he', heq⟩ := he.of_alike hus
    refine ⟨_, .ret (ht'.kind.trans ht) he' (hend.of_alike hvs), ?_⟩
    simp [Stmt.relabel, heq]
  | _, _, _, .expr he hend, _, h => by
    rcases h with _ | ⟨ht', h⟩
    obtain ⟨us, vs, rfl, hus, hvs⟩ := exists_append_of_forall₂ h
    obtain ⟨e', he', heq⟩ := he.of_alike (.cons ht' hus)
    refine ⟨_, .expr he' (hend.of_alike hvs), ?_⟩
    simp [Stmt.relabel, heq]

lemma Sentences.of_alike : ∀ {next : Kind} {ts : List Token} {ss : List Stmt},
    Sentences next ts ss → ∀ {ts' : List Token}, List.Forall₂ Token.Alike ts ts' →
      ∃ ss', Sentences next ts' ss' ∧ Stmt.relabelAll .bare ss' = Stmt.relabelAll .bare ss
  | _, _, _, .nil, _, h => by
    cases h
    exact ⟨[], .nil, rfl⟩
  | _, _, _, .cons hs hss, _, h => by
    obtain ⟨us, vs, rfl, hus, hvs⟩ := exists_append_of_forall₂ h
    obtain ⟨s', hs', heq⟩ := hs.of_alike hus
    obtain ⟨ss', hss', heqs⟩ := hss.of_alike hvs
    rw [← firstKind_of_alike hvs] at hs'
    exact ⟨s' :: ss', .cons hs' hss', by rw [Stmt.relabelAll, Stmt.relabelAll, heq, heqs]⟩

lemma Braced.of_alike : ∀ {ts : List Token} {b : Block}, Braced ts b →
    ∀ {ts' : List Token}, List.Forall₂ Token.Alike ts ts' →
      ∃ b', Braced ts' b' ∧ b'.relabel .bare = b.relabel .bare
  | _, _, .mk hl hss hr, _, h => by
    rcases h with _ | ⟨hl', h⟩
    obtain ⟨us, _, rfl, hus, _ | ⟨hr', ⟨⟩⟩⟩ := exists_append_of_forall₂ h
    obtain ⟨ss', hss', heqs⟩ := hss.of_alike hus
    refine ⟨_, .mk (hl'.kind.trans hl) hss' (hr'.kind.trans hr), ?_⟩
    simp [Block.relabel, heqs]

end

/-- Texts whose tokens are alike are programs that are the same without their tokens. -/
lemma Derives.of_alike {p : Program} (hp : Derives ts p) (h : List.Forall₂ Token.Alike ts ts') :
    ∃ p', Derives ts' p' ∧ p'.relabel .bare = p.relabel .bare := by
  obtain ⟨ss, hss, heq⟩ := Sentences.of_alike hp h
  exact ⟨⟨ss⟩, hss, congrArg Program.mk heq⟩

end Grammar

end Bhasha
