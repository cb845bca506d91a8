import Bhasha.Tree.Parser
import Mathlib.Data.List.Infix
import Mathlib.Tactic.Common

/-!
How readings move the cursor.

A reading only moves forward: the tokens it leaves ahead are the end of those it was given, the
faults it was given stay noted, and if it is abandoned it has noted one more. `Reader.Forward`
says so. It is a class, so that it is found for every piece of a reading from how the piece
is put together.

A reading that notes no fault is a clean one. A reading of several steps is clean exactly if each
of its steps is, because no step can take back what another has noted. `Reader.Clean` is the
relation between the tokens ahead before a clean reading, its result, and the tokens ahead
after it, and the equations of this file say what it is for each piece.
-/

namespace Bhasha

/-- The second cursor can come after the first: it stands at the same place or further on, and no
fault was forgotten. -/
structure Cursor.Leads (c c' : Cursor) : Prop where
  last : c'.last = c.last
  ahead : c'.ahead <:+ c.ahead
  faults : c.faults.toList <+: c'.faults.toList

lemma Cursor.Leads.refl (c : Cursor) : c.Leads c :=
  ⟨rfl, List.suffix_refl _, List.prefix_refl _⟩

lemma Cursor.Leads.trans {c₁ c₂ c₃ : Cursor} (h₁ : c₁.Leads c₂) (h₂ : c₂.Leads c₃) :
    c₁.Leads c₃ :=
  ⟨h₂.last.trans h₁.last, h₂.ahead.trans h₁.ahead, h₁.faults.trans h₂.faults⟩

lemma Cursor.leads_advance (c : Cursor) : c.Leads c.advance :=
  ⟨rfl, List.tail_suffix _, List.prefix_refl _⟩

lemma Cursor.Leads.advance {c c' : Cursor} (h : c.Leads c') : c.advance.Leads c'.advance := by
  refine ⟨h.last, ?_, h.faults⟩
  show c'.ahead.tail <:+ c.ahead.tail
  obtain ⟨ts, hts⟩ := h.ahead
  rw [← hts]
  cases ts with
  | nil => exact List.suffix_refl _
  | cons t ts => exact (List.tail_suffix _).trans (List.suffix_append _ _)

/-- The end token stands behind the tokens ahead, and it is not among them. -/
structure Cursor.Ended (c : Cursor) : Prop where
  last : c.last.kind = .eof
  ahead : ∀ t ∈ c.ahead, t.kind ≠ .eof

lemma Cursor.Ended.leads {c c' : Cursor} (hc : c.Ended) (h : c.Leads c') : c'.Ended :=
  ⟨h.last ▸ hc.last, fun t ht => hc.ahead t (h.ahead.subset ht)⟩

lemma Cursor.Ended.ahead_eq_nil {c : Cursor} (hc : c.Ended) (hk : c.current.kind = .eof) :
    c.ahead = [] := by
  obtain ⟨ahead, last, faults⟩ := c
  cases ahead with
  | nil => rfl
  | cons t ahead => exact absurd hk (hc.ahead t List.mem_cons_self)

/-- The last token of two rows of tokens: that of the second, or else that of the first. -/
lemma getLastD_append (ts us : List Token) (t : Token) :
    (ts ++ us).getLastD t = us.getLastD (ts.getLastD t) := by
  rw [List.getLastD_eq_getLast?, List.getLast?_append, List.getLastD_eq_getLast?,
    List.getLastD_eq_getLast?]
  cases us.getLast? <;> simp

namespace Reader

variable {α β : Type}

/-! ## Forward readings -/

/-- A reading that only moves forward, and that notes a fault if it is abandoned. -/
class Forward (x : Reader α) : Prop where
  leads_of_ok : ∀ {c c' : Cursor} {a : α}, x c = .ok a c' → c.Leads c'
  leads_of_error : ∀ {c c' : Cursor} {i : Abandoned}, x c = .error i c' →
    c.Leads c' ∧ c.faults.toList ≠ c'.faults.toList

instance (a : α) : Forward (pure a : Reader α) where
  leads_of_ok {c c' b} h := by
    obtain ⟨-, rfl⟩ := EStateM.Result.ok.inj (h : EStateM.Result.ok a c = .ok b c')
    exact .refl _
  leads_of_error {c c' i} h := by cases (h : EStateM.Result.ok a c = .error i c')

instance : Forward (get : Reader Cursor) where
  leads_of_ok {c c' b} h := by
    obtain ⟨-, rfl⟩ := EStateM.Result.ok.inj (h : EStateM.Result.ok c c = .ok b c')
    exact .refl _
  leads_of_error {c c' i} h := by cases (h : EStateM.Result.ok c c = .error i c')

lemma bind_of_ok {x : Reader α} {f : α → Reader β} {c c' : Cursor} {a : α}
    (hx : x c = .ok a c') : (x >>= f) c = f a c' := by
  show EStateM.bind x f c = _
  rw [EStateM.bind, hx]

lemma bind_of_error {x : Reader α} {f : α → Reader β} {c c' : Cursor} {i : Abandoned}
    (hx : x c = .error i c') : (x >>= f) c = .error i c' := by
  show EStateM.bind x f c = _
  rw [EStateM.bind, hx]

lemma Forward.bind {x : Reader α} {f : α → Reader β} (hx : Forward x)
    (hf : ∀ a, Forward (f a)) : Forward (x >>= f) where
  leads_of_ok {c c' b} h := by
    rcases hc : x c with ⟨a, c₁⟩ | ⟨i, c₁⟩
    · rw [bind_of_ok hc] at h
      exact (hx.leads_of_ok hc).trans ((hf a).leads_of_ok h)
    · rw [bind_of_error hc] at h
      cases h
  leads_of_error {c c' i} h := by
    rcases hc : x c with ⟨a, c₁⟩ | ⟨j, c₁⟩
    · rw [bind_of_ok hc] at h
      have h₁ := hx.leads_of_ok hc
      obtain ⟨h₂, hne⟩ := (hf a).leads_of_error h
      refine ⟨h₁.trans h₂, fun heq => hne ?_⟩
      -- what lies between two equal lists of faults equals both
      have hback : c'.faults.toList <+: c₁.faults.toList := heq ▸ h₁.faults
      exact h₂.faults.eq_of_length (Nat.le_antisymm h₂.faults.length_le hback.length_le)
    · rw [bind_of_error hc] at h
      obtain ⟨rfl, rfl⟩ := EStateM.Result.error.inj h
      exact hx.leads_of_error hc

instance (x : Reader α) (f : α → Reader β) [hx : Forward x] [hf : ∀ a, Forward (f a)] :
    Forward (x >>= f) :=
  hx.bind hf

instance (p : Prop) [Decidable p] (x y : Reader α) [Forward x] [Forward y] :
    Forward (if p then x else y) := by
  split <;> infer_instance

instance : Forward advance where
  leads_of_ok {c c' u} h := by
    obtain ⟨-, rfl⟩ := EStateM.Result.ok.inj (h : EStateM.Result.ok () c.advance = .ok u c')
    exact c.leads_advance
  leads_of_error {c c' i} h := by cases (h : EStateM.Result.ok () c.advance = .error i c')

instance (fault : SyntaxFault) : Forward (note fault) where
  leads_of_ok {c c' u} h := by
    obtain ⟨-, rfl⟩ := EStateM.Result.ok.inj (h : EStateM.Result.ok () (c.note fault) = .ok u c')
    exact ⟨rfl, List.suffix_refl _, by simp [Cursor.note]⟩
  leads_of_error {c c' i} h := by cases (h : EStateM.Result.ok () (c.note fault) = .error i c')

lemma abandon_eq (fault : SyntaxFault) (c : Cursor) :
    (abandon fault : Reader α) c = .error ⟨⟩ (c.note fault) := rfl

instance (fault : SyntaxFault) : Forward (abandon fault : Reader α) where
  leads_of_ok {c c' a} h := by
    rw [abandon_eq] at h
    cases h
  leads_of_error {c c' i} h := by
    rw [abandon_eq] at h
    obtain ⟨-, rfl⟩ := EStateM.Result.error.inj h
    exact ⟨⟨rfl, List.suffix_refl _, by simp [Cursor.note]⟩, by simp [Cursor.note]⟩

instance (kind : Kind) : Forward (expect kind) := by
  unfold expect
  infer_instance

lemma attempt_of_ok {x : Reader α} {c c' : Cursor} {a : α} (hx : x c = .ok a c') :
    attempt x c = .ok (some a) c' := by
  rw [attempt, hx]

lemma attempt_of_error {x : Reader α} {c c' : Cursor} {i : Abandoned} (hx : x c = .error i c') :
    attempt x c = .ok none c' := by
  rw [attempt, hx]

instance (x : Reader α) [Forward x] : Forward (attempt x) where
  leads_of_ok {c c' r} h := by
    rcases hx : x c with ⟨a, c₁⟩ | ⟨i, c₁⟩
    · rw [attempt_of_ok hx] at h
      obtain ⟨-, rfl⟩ := EStateM.Result.ok.inj h
      exact Forward.leads_of_ok hx
    · rw [attempt_of_error hx] at h
      obtain ⟨-, rfl⟩ := EStateM.Result.ok.inj h
      exact (Forward.leads_of_error hx).1
  leads_of_error {c c' i} h := by
    rcases hx : x c with ⟨a, c₁⟩ | ⟨j, c₁⟩
    · rw [attempt_of_ok hx] at h
      cases h
    · rw [attempt_of_error hx] at h
      cases h

/-! ## The pieces of the parser -/

instance (item : Reader α) [Forward item] (n : Nat) : Forward (moreItems item n) := by
  induction n with
  | zero => exact inferInstanceAs (Forward (pure []))
  | succ n ih =>
    unfold moreItems
    infer_instance

instance (item : Reader α) [Forward item] (close : Kind) : Forward (items item close) := by
  unfold items
  infer_instance

instance : Forward parameter := by
  unfold parameter
  infer_instance

instance : Forward parameters := by
  unfold parameters
  infer_instance

instance : Forward statementEnd := by
  unfold statementEnd
  refine Forward.bind inferInstance fun c => ?_
  dsimp only
  split <;> infer_instance

instance : Forward noExpression := by
  unfold noExpression
  infer_instance

instance : Forward integer := by
  unfold integer
  refine Forward.bind inferInstance fun c => ?_
  dsimp only
  split <;> infer_instance

section Pieces

variable (expression : Precedence → Reader Expr) [∀ context, Forward (expression context)]

instance : Forward (operand expression) := by
  unfold operand
  infer_instance

instance : Forward (binding expression) := by
  unfold binding
  infer_instance

instance : Forward (returning expression) := by
  unfold returning
  infer_instance

instance : Forward (expressionStatement expression) := by
  unfold expressionStatement
  infer_instance

instance : Forward (statement expression) := by
  unfold statement
  refine Forward.bind inferInstance fun c => ?_
  split <;> infer_instance

instance (stop : Kind → Bool) (n : Nat) : Forward (statementsUntil expression stop n) := by
  induction n with
  | zero => exact inferInstanceAs (Forward (pure []))
  | succ n ih =>
    unfold statementsUntil
    infer_instance

instance : Forward (block expression) := by
  unfold block
  infer_instance

instance (op : UnaryOp) : Forward (unary expression op) := by
  unfold unary
  infer_instance

instance : Forward (group expression) := by
  unfold group
  infer_instance

instance : Forward (conditional expression) := by
  unfold conditional
  refine Forward.bind inferInstance fun c => ?_
  refine Forward.bind inferInstance fun _ => Forward.bind inferInstance fun condition => ?_
  refine Forward.bind inferInstance fun _ => Forward.bind inferInstance fun _ => ?_
  infer_instance

instance : Forward (function expression) := by
  unfold function
  infer_instance

instance : Forward (array expression) := by
  unfold array
  infer_instance

instance : Forward (leftEnd expression) := by
  unfold leftEnd
  refine Forward.bind inferInstance fun c => ?_
  dsimp only
  split <;> infer_instance

instance (left : Expr) : Forward (continuation expression left) := by
  unfold continuation
  refine Forward.bind inferInstance fun c => ?_
  dsimp only
  split
  · infer_instance
  · infer_instance
  · split <;> infer_instance

instance (context : Precedence) (n : Nat) (left : Expr) :
    Forward (continuations expression context n left) := by
  induction n generalizing left with
  | zero => exact inferInstanceAs (Forward (pure left))
  | succ n ih =>
    unfold continuations
    infer_instance

end Pieces

instance (n : Nat) (context : Precedence) : Forward (expressionWithin n context) := by
  induction n generalizing context with
  | zero => exact inferInstanceAs (Forward noExpression)
  | succ n ih =>
    unfold expressionWithin
    infer_instance

/-! ## Clean readings -/

section Clean

variable {last : Token} {faults : Array SyntaxFault} {x : Reader α} {f : α → Reader β}
  {as as' as'' : List Token} {a : α} {b : β}

/-- A reading that notes no fault: it yields `a` and leaves the tokens `as'` of the tokens `as`. -/
def Clean (last : Token) (faults : Array SyntaxFault) (x : Reader α) (as : List Token) (a : α)
    (as' : List Token) : Prop :=
  x ⟨as, last, faults⟩ = .ok a ⟨as', last, faults⟩

lemma Clean.pure : Clean last faults (pure a) as a as := rfl

lemma Clean.advance : Clean last faults advance as () as.tail := rfl

lemma Clean.bind (hx : Clean last faults x as a as') (hf : Clean last faults (f a) as' b as'') :
    Clean last faults (x >>= f) as b as'' := by
  unfold Clean
  rw [bind_of_ok hx]
  exact hf

lemma Clean.attempt (hx : Clean last faults x as a as') :
    Clean last faults (attempt x) as (some a) as' :=
  attempt_of_ok hx

lemma Clean.expect {kind : Kind} {c t : Token} (ht : t.kind = kind) :
    Clean last faults (expect kind) (c :: t :: as) () (t :: as) := by
  show (if t.kind = kind then Reader.advance else _ : Reader Unit) _ = _
  rw [if_pos ht]
  rfl

lemma clean_pure {a' : α} :
    Clean last faults (Pure.pure a) as a' as' ↔ a = a' ∧ as = as' := by
  constructor
  · intro h
    have hok : EStateM.Result.ok (ε := Abandoned) a (Cursor.mk as last faults) =
      .ok a' ⟨as', last, faults⟩ := h
    obtain ⟨rfl, hc⟩ := EStateM.Result.ok.inj hok
    exact ⟨rfl, (Cursor.mk.inj hc).1⟩
  · rintro ⟨rfl, rfl⟩
    exact .pure

lemma clean_get {g : Cursor → Reader β} :
    Clean last faults (get >>= g) as b as' ↔ Clean last faults (g ⟨as, last, faults⟩) as b as' :=
  Iff.rfl

/-- A reading of two steps is clean exactly if both of them are. -/
lemma clean_bind [Forward x] [∀ a, Forward (f a)] :
    Clean last faults (x >>= f) as b as'' ↔
      ∃ a as', Clean last faults x as a as' ∧ Clean last faults (f a) as' b as'' := by
  constructor
  · intro h
    unfold Clean at h
    rcases hc : x ⟨as, last, faults⟩ with ⟨a, c₁⟩ | ⟨i, c₁⟩
    · rw [bind_of_ok hc] at h
      have h₁ := Forward.leads_of_ok hc
      have h₂ := Forward.leads_of_ok h
      -- the faults between lie between two equal ones
      have hfaults : c₁.faults = faults :=
        Array.toList_inj.1 (h₁.faults.eq_of_length
          (Nat.le_antisymm h₁.faults.length_le h₂.faults.length_le)).symm
      obtain ⟨ahead, last₁, faults₁⟩ := c₁
      obtain rfl : last₁ = last := h₁.last
      obtain rfl : faults₁ = faults := hfaults
      exact ⟨a, ahead, hc, h⟩
    · rw [bind_of_error hc] at h
      cases h
  · rintro ⟨a, as', hx, hf⟩
    exact hx.bind hf

lemma clean_advance {u : Unit} : Clean last faults Reader.advance as u as' ↔ as.tail = as' := by
  constructor
  · intro h
    have hok : EStateM.Result.ok (ε := Abandoned) () (Cursor.mk as.tail last faults) =
      .ok u ⟨as', last, faults⟩ := h
    exact (Cursor.mk.inj (EStateM.Result.ok.inj hok).2).1
  · rintro rfl
    exact .advance

lemma not_clean_abandon {fault : SyntaxFault} :
    ¬ Clean last faults (abandon fault) as a as' := by
  intro h
  rw [Clean, abandon_eq] at h
  cases h

lemma not_clean_note {fault : SyntaxFault} {u : Unit} :
    ¬ Clean last faults (note fault) as u as' := by
  intro h
  have hok : EStateM.Result.ok (ε := Abandoned) () (Cursor.mk as last (faults.push fault)) =
    .ok u ⟨as', last, faults⟩ := h
  have hsize := congrArg Array.size (Cursor.mk.inj (EStateM.Result.ok.inj hok).2).2.2
  rw [Array.size_push] at hsize
  omega

lemma not_clean_noExpression {e : Expr} : ¬ Clean last faults noExpression as e as' :=
  not_clean_abandon

/-- The end of the text is never what had to follow. -/
lemma clean_expect {kind : Kind} {u : Unit} (hlast : last.kind = .eof) (hkind : kind ≠ .eof) :
    Clean last faults (Reader.expect kind) as u as' ↔
      ∃ t rest, as.tail = t :: rest ∧ t.kind = kind ∧ t :: rest = as' := by
  have hif : Clean last faults (Reader.expect kind) as u as' ↔
      Clean last faults (if (as.tail.headD last).kind = kind then Reader.advance else
        abandon (.unexpectedToken kind (as.tail.headD last).kind (as.tail.headD last).line))
        as u as' := Iff.rfl
  rw [hif]
  split
  · rename_i hk
    rw [clean_advance]
    rcases htail : as.tail with _ | ⟨t, rest⟩
    · rw [htail] at hk
      exact absurd (hk.symm.trans hlast) hkind
    · rw [htail] at hk
      constructor
      · rintro rfl
        exact ⟨t, rest, rfl, hk, rfl⟩
      · rintro ⟨t', rest', heq, -, rfl⟩
        exact heq
  · rename_i hk
    refine iff_of_false not_clean_abandon ?_
    rintro ⟨t, rest, htail, ht, -⟩
    rw [htail] at hk
    exact hk ht

lemma clean_attempt [Forward x] {r : Option α} :
    Clean last faults (Reader.attempt x) as r as' ↔
      ∃ a, r = some a ∧ Clean last faults x as a as' := by
  constructor
  · intro h
    unfold Clean at h
    rcases hc : x ⟨as, last, faults⟩ with ⟨a, c₁⟩ | ⟨i, c₁⟩
    · rw [attempt_of_ok hc] at h
      obtain ⟨rfl, rfl⟩ := EStateM.Result.ok.inj h
      exact ⟨a, rfl, hc⟩
    · rw [attempt_of_error hc] at h
      obtain ⟨-, rfl⟩ := EStateM.Result.ok.inj h
      exact absurd rfl (Forward.leads_of_error hc).2
  · rintro ⟨a, rfl, hx⟩
    exact hx.attempt

end Clean

end Reader

end Bhasha
