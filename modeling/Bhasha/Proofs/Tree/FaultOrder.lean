import Bhasha.Proofs.Tree.Faithful
import Mathlib.Data.List.Forall2

/-!
Faults in the order of the text.

A reading moves the cursor on and notes faults, and a fault is about the token the cursor stands on
or about the next one. `Cursor.Runs` keeps the places of these tokens along the faults.

A fault about the next token can be followed by one about the current token only if the cursor has
moved on between them. So there are two things to know about a cursor: no fault so far is about a
token behind the next one (`Cursor.Pending`), and, where an expression or a statement starts, no
fault so far is about a token behind the current one (`Cursor.Settled`). Moving on makes the second
of the first. `Reader.Orderly` says that a piece of reading leaves the first behind, whether it
succeeds or is abandoned. It is a class, as `Reader.Forward` is.
-/

namespace Bhasha

namespace Cursor

variable {text : String} {places : List Nat} {c : Cursor}

/-! ## Runs of a cursor -/

/-- The place in the text where its last tokens `as` start; behind all tokens stands the end
token. -/
def place (text : String) (as : List Token) : Nat :=
  (Scanner.ofString text).tokens.1.length - as.length

/-- From the start of the text the cursor has come here by moving on and by noting faults. A token
that was not expected is the next one; a token that starts no expression and a literal that does not
fit are the current one. The list holds the places of these tokens, one for each fault. -/
inductive Runs (text : String) : List Nat → Cursor → Prop
  | start : Runs text [] (ofString text)
  | advance {places : List Nat} {c : Cursor} : Runs text places c → Runs text places c.advance
  | unexpectedToken {places : List Nat} {c : Cursor} (expected : Kind) : Runs text places c →
      Runs text (places ++ [place text c.ahead.tail])
        (c.note (.unexpectedToken expected c.peek.kind c.peek.line))
  | noExpression {places : List Nat} {c : Cursor} : Runs text places c →
      Runs text (places ++ [place text c.ahead])
        (c.note (.noExpression c.current.kind c.current.line))
  | invalidInteger {places : List Nat} {c : Cursor} : Runs text places c →
      Runs text (places ++ [place text c.ahead])
        (c.note (.invalidInteger c.current.literal c.current.line))

lemma Runs.leads (h : Runs text places c) : (ofString text).Leads c := by
  have hnote : ∀ (c : Cursor) (fault : SyntaxFault), c.Leads (c.note fault) := fun c fault =>
    ⟨rfl, List.suffix_refl _, by simp [note]⟩
  induction h with
  | start => exact .refl _
  | advance _ ih => exact ih.trans (leads_advance _)
  | unexpectedToken _ _ ih => exact ih.trans (hnote _ _)
  | noExpression _ ih => exact ih.trans (hnote _ _)
  | invalidInteger _ ih => exact ih.trans (hnote _ _)

lemma getElem?_place {as : List Token} (h : as <:+ (Scanner.ofString text).tokens.1) :
    (Scanner.ofString text).stream[place text as]? =
      some (as.headD (Scanner.ofString text).tokens.2) := by
  obtain ⟨ts, hts⟩ := h
  have hplace : place text as = ts.length := by
    rw [place, ← hts, List.length_append, Nat.add_sub_cancel]
  rw [hplace, Scanner.stream, ← hts, List.append_assoc, List.getElem?_append_right (Nat.le_refl _),
    Nat.sub_self]
  cases as <;> rfl

/-- The line is that of the token at the place. -/
def OnLine (text : String) (place : Nat) (line : Nat) : Prop :=
  ∃ t, (Scanner.ofString text).stream[place]? = some t ∧ t.line = line

lemma Runs.onLine_peek (h : Runs text places c) :
    OnLine text (place text c.ahead.tail) c.peek.line := by
  refine ⟨_, getElem?_place ((List.tail_suffix _).trans h.leads.ahead), ?_⟩
  rw [peek, h.leads.last]
  rfl

lemma Runs.onLine_current (h : Runs text places c) :
    OnLine text (place text c.ahead) c.current.line := by
  refine ⟨_, getElem?_place h.leads.ahead, ?_⟩
  rw [current, h.leads.last]
  rfl

/-- Every fault is on the line of the token it is about. -/
lemma Runs.forall₂_onLine (h : Runs text places c) :
    List.Forall₂ (OnLine text) places (c.faults.toList.map SyntaxFault.line) := by
  have hnote : ∀ {places : List Nat} {c : Cursor} {place : Nat} {fault : SyntaxFault},
      List.Forall₂ (OnLine text) places (c.faults.toList.map SyntaxFault.line) →
      OnLine text place fault.line →
      List.Forall₂ (OnLine text) (places ++ [place])
        ((c.note fault).faults.toList.map SyntaxFault.line) := by
    intro places c place fault hplaces hplace
    rw [note, Array.toList_push, List.map_append]
    exact List.rel_append hplaces (.cons hplace .nil)
  induction h with
  | start => exact .nil
  | advance _ ih => exact ih
  | unexpectedToken _ h ih => exact hnote ih h.onLine_peek
  | noExpression h ih => exact hnote ih h.onLine_current
  | invalidInteger h ih => exact hnote ih h.onLine_current

lemma OnLine.le {p q l m : Nat} (h : OnLine text p l) (h' : OnLine text q m) (hpq : p ≤ q) :
    l ≤ m := by
  obtain ⟨t, ht, rfl⟩ := h
  obtain ⟨u, hu, rfl⟩ := h'
  obtain ⟨hp, rfl⟩ := List.getElem?_eq_some_iff.1 ht
  obtain ⟨hq, rfl⟩ := List.getElem?_eq_some_iff.1 hu
  rcases Nat.lt_or_eq_of_le hpq with hlt | rfl
  · exact List.pairwise_iff_getElem.1 (Scanner.pairwise_line_stream _).1 p q hp hq hlt
  · exact Nat.le_refl _

lemma pairwise_of_onLine {lines : List Nat} (h : List.Forall₂ (OnLine text) places lines)
    (hplaces : places.Pairwise (· ≤ ·)) : lines.Pairwise (· ≤ ·) := by
  obtain ⟨hlength, hget⟩ := List.forall₂_iff_get.1 h
  rw [List.pairwise_iff_getElem] at hplaces ⊢
  intro i j hi hj hij
  have hi' : i < places.length := hlength ▸ hi
  have hj' : j < places.length := hlength ▸ hj
  exact (hget i hi' hi).le (hget j hj' hj) (hplaces i j hi' hj' hij)

/-! ## How far the faults reach -/

/-- The faults noted so far are about tokens in the order of the text, and none of them is about a
token behind the given place. -/
def Reaches (text : String) (n : Nat) (c : Cursor) : Prop :=
  ∃ places, Runs text places c ∧ places.Pairwise (· ≤ ·) ∧ ∀ p ∈ places, p ≤ n

lemma Reaches.ended {n : Nat} (h : Reaches text n c) : c.Ended := by
  obtain ⟨_, hruns, -⟩ := h
  exact (ended_ofString text).leads hruns.leads

/-- No fault so far is about a token behind the current one. -/
def Settled (text : String) (c : Cursor) : Prop :=
  Reaches text (place text c.ahead) c

/-- No fault so far is about a token behind the next one. -/
def Pending (text : String) (c : Cursor) : Prop :=
  Reaches text (place text c.ahead.tail) c

lemma Settled.pending (h : Settled text c) : Pending text c := by
  obtain ⟨places, hruns, hplaces, hle⟩ := h
  refine ⟨places, hruns, hplaces, fun p hp => (hle p hp).trans ?_⟩
  exact Nat.sub_le_sub_left (List.tail_sublist _).length_le _

lemma Pending.advance (h : Pending text c) : Settled text c.advance := by
  obtain ⟨places, hruns, hplaces, hle⟩ := h
  exact ⟨places, hruns.advance, hplaces, hle⟩

/-- A fault is noted that is about a token not before those of the faults so far. -/
lemma Reaches.note {m n : Nat} {fault : SyntaxFault} (h : Reaches text m c) (hmn : m ≤ n)
    (hfault : ∀ {places}, Runs text places c → Runs text (places ++ [n]) (c.note fault)) :
    Reaches text n (c.note fault) := by
  obtain ⟨places, hruns, hplaces, hle⟩ := h
  have hn : ∀ p ∈ places, p ≤ n := fun p hp => (hle p hp).trans hmn
  refine ⟨places ++ [n], hfault hruns, ?_, ?_⟩
  · exact List.pairwise_append.2 ⟨hplaces, List.pairwise_singleton _ _, by simpa using hn⟩
  · simpa [or_imp, forall_and] using hn

lemma Pending.unexpectedToken (expected : Kind) (h : Pending text c) :
    Pending text (c.note (.unexpectedToken expected c.peek.kind c.peek.line)) :=
  Reaches.note h (Nat.le_refl _) (.unexpectedToken expected)

lemma Settled.noExpression (h : Settled text c) :
    Settled text (c.note (.noExpression c.current.kind c.current.line)) :=
  Reaches.note h (Nat.le_refl _) .noExpression

lemma Settled.invalidInteger (h : Settled text c) :
    Settled text (c.note (.invalidInteger c.current.literal c.current.line)) :=
  Reaches.note h (Nat.le_refl _) .invalidInteger

end Cursor

namespace Reader

open Cursor (Settled Pending)

variable {α β : Type} {text : String} {P : Cursor → Prop}

/-! ## Orderly readings -/

/-- From a cursor with the property the reading comes to a pending one. -/
class Orderly (text : String) (P : Cursor → Prop) (x : Reader α) : Prop where
  pending_of_ok : ∀ {c c' : Cursor} {a : α}, P c → x c = .ok a c' → Pending text c'
  pending_of_error : ∀ {c c' : Cursor} {i : Abandoned}, P c → x c = .error i c' → Pending text c'

instance (priority := low) (x : Reader α) [hx : Orderly text (Pending text) x] :
    Orderly text (Settled text) x where
  pending_of_ok hc h := hx.pending_of_ok hc.pending h
  pending_of_error hc h := hx.pending_of_error hc.pending h

instance (a : α) : Orderly text (Pending text) (pure a : Reader α) where
  pending_of_ok {c c' b} hc h := by
    obtain ⟨-, rfl⟩ := EStateM.Result.ok.inj (h : EStateM.Result.ok a c = .ok b c')
    exact hc
  pending_of_error {c c' i} _ h := by cases (h : EStateM.Result.ok a c = .error i c')

lemma Orderly.get_bind {f : Cursor → Reader α}
    (hf : ∀ c, Orderly text (fun d => P d ∧ d = c) (f c)) : Orderly text P (get >>= f) where
  pending_of_ok {c _ _} hc h := (hf c).pending_of_ok ⟨hc, rfl⟩ h
  pending_of_error {c _ _} hc h := (hf c).pending_of_error ⟨hc, rfl⟩ h

lemma Orderly.and_left {Q : Cursor → Prop} {x : Reader α} (hx : Orderly text P x) :
    Orderly text (fun c => P c ∧ Q c) x where
  pending_of_ok hc h := hx.pending_of_ok hc.1 h
  pending_of_error hc h := hx.pending_of_error hc.1 h

instance (f : Cursor → Reader α) [hf : ∀ c, Orderly text P (f c)] : Orderly text P (get >>= f) :=
  .get_bind fun c => (hf c).and_left

lemma Orderly.bind {x : Reader α} {f : α → Reader β} (hx : Orderly text P x)
    (hf : ∀ a, Orderly text (Pending text) (f a)) : Orderly text P (x >>= f) where
  pending_of_ok {c c' b} hc h := by
    rcases hx' : x c with ⟨a, c₁⟩ | ⟨i, c₁⟩
    · rw [bind_of_ok hx'] at h
      exact (hf a).pending_of_ok (hx.pending_of_ok hc hx') h
    · rw [bind_of_error hx'] at h
      cases h
  pending_of_error {c c' i} hc h := by
    rcases hx' : x c with ⟨a, c₁⟩ | ⟨j, c₁⟩
    · rw [bind_of_ok hx'] at h
      exact (hf a).pending_of_error (hx.pending_of_ok hc hx') h
    · rw [bind_of_error hx'] at h
      obtain ⟨-, rfl⟩ := EStateM.Result.error.inj h
      exact hx.pending_of_error hc hx'

instance (x : Reader α) (f : α → Reader β) [hx : Orderly text P x]
    [hf : ∀ a, Orderly text (Pending text) (f a)] : Orderly text P (x >>= f) :=
  hx.bind hf

/-- What is read behind a token more can start on a settled cursor. -/
instance (f : Unit → Reader α) [hf : ∀ u, Orderly text (Settled text) (f u)] :
    Orderly text (Pending text) (advance >>= f) where
  pending_of_ok hc h := (hf ()).pending_of_ok hc.advance h
  pending_of_error hc h := (hf ()).pending_of_error hc.advance h

instance : Orderly text (Pending text) advance where
  pending_of_ok {c c' u} hc h := by
    obtain ⟨-, rfl⟩ := EStateM.Result.ok.inj (h : EStateM.Result.ok () c.advance = .ok u c')
    exact hc.advance.pending
  pending_of_error {c c' i} _ h := by cases (h : EStateM.Result.ok () c.advance = .error i c')

instance (p : Prop) [Decidable p] (x y : Reader α) [Orderly text P x] [Orderly text P y] :
    Orderly text P (if p then x else y) := by
  split <;> infer_instance

instance (x : Reader α) [hx : Orderly text P x] : Orderly text P (attempt x) where
  pending_of_ok {c c' r} hc h := by
    rcases hx' : x c with ⟨a, c₁⟩ | ⟨i, c₁⟩
    · rw [attempt_of_ok hx'] at h
      obtain ⟨-, rfl⟩ := EStateM.Result.ok.inj h
      exact hx.pending_of_ok hc hx'
    · rw [attempt_of_error hx'] at h
      obtain ⟨-, rfl⟩ := EStateM.Result.ok.inj h
      exact hx.pending_of_error hc hx'
  pending_of_error {c c' i} hc h := by
    rcases hx' : x c with ⟨a, c₁⟩ | ⟨j, c₁⟩
    · rw [attempt_of_ok hx'] at h
      cases h
    · rw [attempt_of_error hx'] at h
      cases h

/-! ## Faults -/

lemma orderly_note {fault : SyntaxFault} (h : ∀ c, P c → Pending text (c.note fault)) :
    Orderly text P (note fault) where
  pending_of_ok {c c' u} hc hnote := by
    obtain ⟨-, rfl⟩ :=
      EStateM.Result.ok.inj (hnote : EStateM.Result.ok () (c.note fault) = .ok u c')
    exact h c hc
  pending_of_error {c c' i} _ hnote := by
    cases (hnote : EStateM.Result.ok () (c.note fault) = .error i c')

lemma orderly_abandon {fault : SyntaxFault} (h : ∀ c, P c → Pending text (c.note fault)) :
    Orderly text P (abandon fault : Reader α) where
  pending_of_ok _ habandon := by
    rw [abandon_eq] at habandon
    cases habandon
  pending_of_error hc habandon := by
    rw [abandon_eq] at habandon
    obtain ⟨-, rfl⟩ := EStateM.Result.error.inj habandon
    exact h _ hc

instance (kind : Kind) : Orderly text (Pending text) (expect kind) := by
  refine .get_bind fun c => ?_
  dsimp only
  split
  · exact Orderly.and_left inferInstance
  · exact orderly_abandon fun d ⟨hd, heq⟩ => heq ▸ hd.unexpectedToken kind

instance : Orderly text (Pending text) statementEnd := by
  refine .get_bind fun c => ?_
  dsimp only
  split
  · exact Orderly.and_left inferInstance
  · exact Orderly.and_left inferInstance
  · exact Orderly.and_left inferInstance
  · exact orderly_note fun d ⟨hd, heq⟩ => heq ▸ hd.unexpectedToken .semicolon

instance : Orderly text (Settled text) noExpression :=
  .get_bind fun _ => orderly_abandon fun _ ⟨hd, heq⟩ => heq ▸ hd.noExpression.pending

instance : Orderly text (Settled text) integer := by
  refine .get_bind fun c => ?_
  dsimp only
  split
  · exact Orderly.and_left inferInstance
  · exact orderly_abandon fun d ⟨hd, heq⟩ => heq ▸ hd.invalidInteger.pending

/-! ## The pieces of the parser -/

instance (item : Reader α) [Orderly text (Pending text) item] (n : Nat) :
    Orderly text (Pending text) (moreItems item n) := by
  induction n with
  | zero => exact inferInstanceAs (Orderly text (Pending text) (pure []))
  | succ n ih =>
    unfold moreItems
    infer_instance

instance (item : Reader α) [Orderly text (Pending text) item] (close : Kind) :
    Orderly text (Pending text) (items item close) := by
  unfold items
  infer_instance

instance : Orderly text (Pending text) parameter := by
  unfold parameter
  infer_instance

instance : Orderly text (Pending text) parameters := by
  unfold parameters
  infer_instance

section Pieces

variable (expression : Precedence → Reader Expr)
  [∀ context, Orderly text (Settled text) (expression context)]

instance : Orderly text (Pending text) (operand expression) := by
  unfold operand
  infer_instance

instance : Orderly text (Pending text) (binding expression) := by
  unfold binding
  infer_instance

instance : Orderly text (Pending text) (returning expression) := by
  unfold returning
  infer_instance

instance : Orderly text (Settled text) (expressionStatement expression) := by
  unfold expressionStatement
  infer_instance

instance : Orderly text (Settled text) (statement expression) := by
  refine .get_bind fun c => Orderly.and_left ?_
  split <;> infer_instance

instance (stop : Kind → Bool) (n : Nat) :
    Orderly text (Settled text) (statementsUntil expression stop n) := by
  induction n with
  | zero => exact inferInstanceAs (Orderly text (Settled text) (pure []))
  | succ n ih =>
    unfold statementsUntil
    infer_instance

/-- Where the closing brace is missing, the current token and the next one are both the end
token. -/
lemma pending_note_of_eof {c : Cursor} (hc : Pending text c) (hk : c.current.kind = .eof) :
    Pending text (c.note (.unexpectedToken .rbrace .eof c.current.line)) := by
  have hpeek : c.peek = c.current := by
    rw [Cursor.peek, Cursor.current, (Cursor.Reaches.ended hc).ahead_eq_nil hk, List.tail_nil]
  have hnote := hc.unexpectedToken .rbrace
  rwa [hpeek, hk] at hnote

instance : Orderly text (Pending text) (block expression) := by
  unfold block
  have hend : ∀ (token : Token) (ss : List Stmt), Orderly text (Pending text) (do
      let last := (← get).current
      if last.kind = .eof then abandon (.unexpectedToken .rbrace .eof last.line)
      else return Block.mk token ss) := by
    intro token ss
    refine .get_bind fun c => ?_
    dsimp only
    split
    · rename_i hk
      exact orderly_abandon fun d ⟨hd, heq⟩ => heq ▸ pending_note_of_eof hd (heq ▸ hk)
    · exact Orderly.and_left inferInstance
  infer_instance

instance (op : UnaryOp) : Orderly text (Pending text) (unary expression op) := by
  unfold unary
  infer_instance

instance : Orderly text (Pending text) (group expression) := by
  unfold group
  infer_instance

instance : Orderly text (Pending text) (conditional expression) := by
  unfold conditional
  refine Orderly.get_bind fun c => Orderly.and_left (Orderly.bind inferInstance fun _ => ?_)
  refine Orderly.bind inferInstance fun condition => Orderly.bind inferInstance fun _ => ?_
  infer_instance

instance : Orderly text (Pending text) (function expression) := by
  unfold function
  infer_instance

instance : Orderly text (Pending text) (array expression) := by
  unfold array
  infer_instance

instance : Orderly text (Settled text) (leftEnd expression) := by
  refine .get_bind fun c => Orderly.and_left ?_
  dsimp only
  split <;> infer_instance

instance (left : Expr) : Orderly text (Pending text) (continuation expression left) := by
  refine .get_bind fun c => Orderly.and_left ?_
  dsimp only
  split
  · infer_instance
  · infer_instance
  · split <;> infer_instance

instance (context : Precedence) (n : Nat) (left : Expr) :
    Orderly text (Pending text) (continuations expression context n left) := by
  induction n generalizing left with
  | zero => exact inferInstanceAs (Orderly text (Pending text) (pure left))
  | succ n ih =>
    unfold continuations
    infer_instance

end Pieces

instance (n : Nat) (context : Precedence) :
    Orderly text (Settled text) (expressionWithin n context) := by
  induction n generalizing context with
  | zero => exact inferInstanceAs (Orderly text (Settled text) noExpression)
  | succ n ih =>
    unfold expressionWithin
    infer_instance

instance : Orderly text (Settled text) program := by
  unfold program
  infer_instance

end Reader

/-! ## Texts -/

lemma Cursor.settled_ofString (text : String) : Settled text (ofString text) :=
  ⟨[], .start, .nil, by simp⟩

lemma Cursor.pending_program (text : String) : Pending text (ofString text).program.2 := by
  rw [Cursor.program]
  rcases h : Reader.program (ofString text) with ⟨p, c⟩ | ⟨i, c⟩
  · exact Reader.Orderly.pending_of_ok (settled_ofString text) h
  · exact Reader.Orderly.pending_of_error (settled_ofString text) h

/-- The faults of a text come in its order. The parser moves from token to token and notes each
fault about the next token, if that was not expected, or else about the current one. The places of
these tokens never decrease, each fault is on the line of its token, and the lines never
decrease. -/
theorem Program.faults_in_order (text : String) :
    ∃ places, Cursor.Runs text places (Cursor.ofString text).program.2 ∧
      places.Pairwise (· ≤ ·) ∧
      List.Forall₂ (Cursor.OnLine text) places ((Program.read text).2.map SyntaxFault.line) ∧
      ((Program.read text).2.map SyntaxFault.line).Pairwise (· ≤ ·) := by
  obtain ⟨places, hruns, hplaces, -⟩ := Cursor.pending_program text
  have hlines := hruns.forall₂_onLine
  exact ⟨places, hruns, hplaces, hlines, Cursor.pairwise_of_onLine hlines hplaces⟩

-- the sign was not expected behind the keyword, and then it starts no expression
example : (Program.read "let\n= 5").2 =
    [.unexpectedToken .ident .assign 2, .noExpression .assign 2] := by decide +kernel

end Bhasha
