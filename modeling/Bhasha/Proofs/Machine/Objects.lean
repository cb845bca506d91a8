import Bhasha.Proofs.Machine.Bindings
import Bhasha.Proofs.Machine.Checks
import Bhasha.Proofs.Machine.Visits

/-!
The objects of a run.

A run numbers its objects in the order in which they are made. So at every moment there is a list of
all objects made so far, each at the place of its number, and the list only grows. Every value that
comes up is made of objects of the list (`Value.Among`): an object stands there with the content
that it has, and so do the elements of an array. Two values with one number stand at one place, so
they are one value.

The list is no part of the machine. That there is one is said by `Eval.Enlists`, and that it serves
for all values that are seen on the way, which may be gone when the evaluation ends. The values that
are seen are those of the expressions visited, in calls as well. This is proved construct by
construct and carried over to everything that a machine is used for.
-/

namespace Bhasha

/-! ## Values made of objects -/

namespace Value

/-- The number of an object. -/
def id? : Value → Option ObjectId
  | str id _ | array id _ | closure id _ _ => some id
  | int _ | bool _ | null | builtin _ => none

/-- The value is made of objects of a list, in which each stands at the place of its number. -/
inductive Among (objects : List Value) : Value → Prop
  | plain {v : Value} : v.Plain → Among objects v
  | str {id : ObjectId} {text : String} :
      objects[id]? = some (.str id text) → Among objects (.str id text)
  | array {id : ObjectId} {elements : List Value} :
      objects[id]? = some (.array id elements) → (∀ v ∈ elements, Among objects v) →
      Among objects (.array id elements)
  | closure {id : ObjectId} {lambda : Lambda} {env : Env} :
      objects[id]? = some (.closure id lambda env) → Among objects (.closure id lambda env)

/-- The values in an option or a list are made of objects of a list. -/
def AllAmong {c : Type} [Membership Value c] (objects : List Value) (values : c) : Prop :=
  ∀ v ∈ values, v.Among objects

variable {objects objects' : List Value} {v w : Value}

lemma Among.mono (h : v.Among objects) (hle : objects <+: objects') : v.Among objects' := by
  have hget : ∀ {id : ObjectId} {o : Value}, objects[id]? = some o → objects'[id]? = some o := by
    intro id o ho
    obtain ⟨more, rfl⟩ := hle
    rw [List.getElem?_append_left (List.getElem?_eq_some_iff.1 ho).1, ho]
  induction h with
  | plain h => exact .plain h
  | str h => exact .str (hget h)
  | array h _ ih => exact .array (hget h) ih
  | closure h => exact .closure (hget h)

lemma AllAmong.mono {c : Type} [Membership Value c] {values : c} (h : AllAmong objects values)
    (hle : objects <+: objects') : AllAmong objects' values :=
  fun v hv => (h v hv).mono hle

lemma Among.elements {id : ObjectId} {xs : List Value} (h : (Value.array id xs).Among objects) :
    AllAmong objects xs := by
  cases h with
  | plain h => cases h
  | array _ h => exact h

lemma AllAmong.getD {v? : Option Value} (h : AllAmong objects v?) :
    (v?.getD .null).Among objects := by
  cases v? with
  | none => exact .plain .null
  | some v => exact h v rfl

lemma Among.getElem? (h : v.Among objects) {id : ObjectId} (hid : v.id? = some id) :
    objects[id]? = some v := by
  cases h with
  | plain h => cases h <;> cases hid
  | str h | array h _ | closure h =>
    obtain rfl := Option.some.inj hid
    exact h

/-- What identity sees of a value: an object is its number among those of its type, and all others
are themselves. -/
lemma identical_iff :
    v.identical w = true ↔ v.type = w.type ∧ v.id? = w.id? ∧ (v.id? = none → v = w) := by
  cases v <;> cases w <;> simp [identical, type, id?]

/-- Of the values made of one list of objects, only one is identical to each. -/
lemma Among.eq_of_identical (hv : v.Among objects) (hw : w.Among objects)
    (h : v.identical w = true) : v = w := by
  obtain ⟨-, hid, hplain⟩ := identical_iff.1 h
  rcases hn : v.id? with _ | id
  · exact hplain hn
  · exact Option.some.inj ((hv.getElem? hn).symm.trans (hw.getElem? (hid ▸ hn)))

/-- A string that is put behind the objects made before. -/
lemma among_concat_str (objects : List Value) (text : String) :
    (str objects.length text).Among (objects ++ [.str objects.length text]) :=
  .str List.getElem?_concat_length

lemma AllAmong.concat_array {xs : List Value} (h : AllAmong objects xs) :
    (array objects.length xs).Among (objects ++ [.array objects.length xs]) :=
  .array List.getElem?_concat_length (h.mono (List.prefix_append _ _))

lemma among_concat_closure (objects : List Value) (lambda : Lambda) (env : Env) :
    (closure objects.length lambda env).Among (objects ++ [.closure objects.length lambda env]) :=
  .closure List.getElem?_concat_length

end Value

open Value (AllAmong)

/-! ## Machines that have made objects -/

/-- The machine has made the objects of the list and no others, and all that its frames bind is made
of them. -/
structure Machine.HasMade (objects : List Value) (m : Machine) : Prop where
  count : m.nextObject = objects.length
  binds : m.BindsOnly (Value.Among objects)

namespace Machine

variable {objects objects' : List Value} {m m' : Machine}

lemma hasMade_initial : Machine.initial.HasMade [] :=
  ⟨rfl, bindsOnly_initial _⟩

lemma HasMade.of_eq (hm : m.HasMade objects) (hheap : m'.heap = m.heap)
    (hnext : m'.nextObject = m.nextObject) : m'.HasMade objects :=
  ⟨hnext.trans hm.count, hm.binds.of_heap_eq hheap⟩

lemma HasMade.define (hm : m.HasMade objects) (env : Env) (name : String) {v : Value}
    (hv : v.Among objects) : HasMade objects { m with heap := m.heap.set env name v } :=
  ⟨hm.count, hm.binds.define env name hv⟩

/-- One more object is made. -/
lemma HasMade.concat (hm : m.HasMade objects) (object : Value) :
    HasMade (objects ++ [object]) { m with nextObject := m.nextObject + 1 } := by
  refine ⟨?_, (hm.binds.mono fun v hv => hv.mono (List.prefix_append _ _)).of_heap_eq rfl⟩
  rw [List.length_append, List.length_singleton, ← hm.count]

lemma nextObject_bound (scope : Env) (pairs : List (Identifier × Value)) (m : Machine) :
    (Eval.bound scope pairs m).nextObject = m.nextObject := by
  induction pairs generalizing m with
  | nil => rfl
  | cons pair rest ih => exact ih _

lemma HasMade.enter (hm : m.HasMade objects) (captured : Env) (params : List Identifier)
    {args : List Value} (hargs : AllAmong objects args) :
    (Eval.bound (Eval.entered captured m).1 (params.zip args)
      (Eval.entered captured m).2).HasMade objects :=
  ⟨(nextObject_bound _ _ _).trans hm.count,
    (hm.binds.entered captured).bound _ fun p hp => hargs p.2 (List.of_mem_zip hp).2⟩

lemma HasMade.released (hm : m.HasMade objects) (policy : ReleasePolicy) (mark : Nat)
    (result : Value) : (Eval.released policy mark result m).HasMade objects :=
  ⟨(nextObject_released policy mark result m).trans hm.count,
    hm.binds.released policy mark result⟩

end Machine

namespace Eval

/-! ## What operators and builtins make -/

/-- The value is one of the operands or an element of one. -/
def FoundIn (operands : List Value) (v : Value) : Prop :=
  v ∈ operands ∨ ∃ id xs, .array id xs ∈ operands ∧ v ∈ xs

lemma FoundIn.among {objects operands : List Value} {v : Value} (h : FoundIn operands v)
    (hoperands : AllAmong objects operands) : v.Among objects := by
  obtain hmem | ⟨id, xs, harray, hmem⟩ := h
  · exact hoperands v hmem
  · exact (hoperands _ harray).elements v hmem

/-- How an operation on given operands can end. It fails and changes nothing, or it ends with a
value that is no object or was there before, or it makes one object, and an array has only elements
that were there before. -/
inductive OperationEnd (operands : List Value) (m : Machine) :
    Except Interrupt Value × Machine → Prop
  | failed (fault : Fault) : OperationEnd operands m (.error (.failed fault), m)
  | known {v : Value} {m' : Machine} :
      v.Plain ∨ FoundIn operands v → m'.heap = m.heap → m'.nextObject = m.nextObject →
      OperationEnd operands m (.ok v, m')
  | newString (text : String) :
      OperationEnd operands m
        (.ok (.str m.nextObject text), { m with nextObject := m.nextObject + 1 })
  | newArray {xs : List Value} :
      (∀ x ∈ xs, FoundIn operands x) →
      OperationEnd operands m
        (.ok (.array m.nextObject xs), { m with nextObject := m.nextObject + 1 })

section Operations

variable {α : Type} {operands : List Value} {m : Machine}

lemma OperationEnd.check {line : Nat} {r : Except Cause Value}
    (h : ∀ v, r = .ok v → v.Plain ∨ FoundIn operands v) :
    OperationEnd operands m ((check line r).outcome m) := by
  cases r with
  | error cause => exact .failed ⟨cause, line⟩
  | ok v => exact .known (h v rfl) rfl rfl

lemma OperationEnd.check_bind {line : Nat} {r : Except Cause α} {f : α → Eval Value}
    (h : ∀ a, r = .ok a → OperationEnd operands m ((f a).outcome m)) :
    OperationEnd operands m ((Eval.check line r >>= f).outcome m) := by
  cases r with
  | error cause => exact .failed ⟨cause, line⟩
  | ok a => exact h a rfl

lemma operationEnd_unary (op : UnaryOp) (v : Value) (line : Nat) (m : Machine) :
    OperationEnd [v] m ((unary op v line).outcome m) :=
  .check fun _ h => Or.inl (plain_onValue h)

lemma operationEnd_binary (op : BinaryOp) (v w : Value) (line : Nat) (m : Machine) :
    OperationEnd [v, w] m ((binary op v w line).outcome m) := by
  rw [Eval.binary.eq_def]
  split
  · exact .check fun _ h => Or.inl (plain_onIntegers h)
  · exact .check_bind fun text _ => .newString text
  · split
    · exact .check fun _ h => Or.inl (plain_onIdentity h)
    · exact .failed _

lemma operationEnd_index (base place : Value) (line : Nat) (m : Machine) :
    OperationEnd [base, place] m ((index base place line).outcome m) := by
  refine .check fun v h => ?_
  obtain rfl | ⟨id, xs, rfl, hv⟩ := eq_null_or_mem_of_elementAt h
  · exact Or.inl .null
  · exact Or.inr (Or.inr ⟨id, xs, List.mem_cons_self, hv⟩)

lemma operationEnd_builtinBody (b : Builtin) (args : List Value) (line : Nat) (m : Machine) :
    OperationEnd args m ((b.body args line).outcome m) := by
  have helement : ∀ {xs}, b.elements args = .ok xs → ∀ x ∈ xs, FoundIn args x := by
    intro xs hxs x hx
    obtain ⟨id, rfl⟩ := Builtin.eq_of_elements_eq_ok hxs
    exact Or.inr ⟨id, xs, List.mem_singleton_self _, hx⟩
  -- an element that may be missing is an element or null
  have hpick : ∀ pick : List Value → Option Value, (∀ xs v, pick xs = some v → v ∈ xs) →
      OperationEnd args m
        ((do return (pick (← Eval.check line (b.elements args))).getD .null : Eval Value).outcome
          m) := by
    refine fun pick hmem => .check_bind fun xs hxs => .known ?_ rfl rfl
    rcases hv : pick xs with _ | v
    · exact Or.inl .null
    · exact Or.inr (helement hxs v (hmem xs v hv))
  cases b with
  | len =>
    refine .check fun v h => ?_
    obtain ⟨n, rfl⟩ := Builtin.eq_of_length_eq_ok h
    exact Or.inl (.int n)
  | first | head => exact hpick List.head? fun _ _ => List.mem_of_head?
  | last => exact hpick List.getLast? fun _ _ => List.mem_of_getLast?
  | rest | tail =>
    refine .check_bind fun xs hxs => ?_
    cases xs with
    | nil => exact .known (Or.inl .null) rfl rfl
    | cons x others => exact .newArray fun y hy => helement hxs y (List.mem_cons_of_mem x hy)
  | push | append =>
    refine .check_bind fun xs hxs => .newArray fun x hx => ?_
    obtain ⟨id, ys, v, rfl, rfl⟩ := Builtin.eq_of_extended_eq_ok hxs
    rcases List.mem_append.1 hx with hx | hx
    · exact Or.inr ⟨id, ys, List.mem_cons_self, hx⟩
    · obtain rfl := List.mem_singleton.1 hx
      exact Or.inl (by simp)
  | print | puts =>
    have hprint := outcome_printAll args m
    show OperationEnd args m ((args.forM print >>= fun _ => pure Value.null).outcome m)
    rw [outcome_bind_of_ok hprint]
    exact .known (Or.inl .null) rfl rfl

lemma operationEnd_builtinCall (b : Builtin) (args : List Value) (line : Nat) (m : Machine) :
    OperationEnd args m ((b.call args line).outcome m) := by
  rw [Builtin.call]
  split
  · exact operationEnd_builtinBody b args line m
  · exact .failed _

end Operations

/-! ## Evaluations that make objects -/

section Enlisting

variable {α β : Type}

/-- The values that an evaluation ends with are made of objects of the list; returned ones too. -/
def OutcomeAmong (among : List Value → α → Prop) (objects : List Value) :
    Except Interrupt α → Prop
  | .ok a => among objects a
  | .error (.returned v) => v.Among objects
  | .error (.failed _) | .error .exhausted => True

lemma OutcomeAmong.callResult {objects : List Value} {r : Except Interrupt (Option Value)}
    (hr : OutcomeAmong AllAmong objects r) :
    OutcomeAmong Value.Among objects (callResult r) := by
  rcases r with (v | fault | _) | v
  · exact hr
  · trivial
  · trivial
  · exact AllAmong.getD hr

/-- The list of objects can be continued so that it serves when the evaluation has ended, and for
all values that are seen until then. -/
def Enlists (among : List Value → α → Prop) (seen : Value → Prop) (x : Eval α) (m : Machine)
    (objects : List Value) : Prop :=
  ∃ objects', objects <+: objects' ∧ (x.outcome m).2.HasMade objects' ∧
    OutcomeAmong among objects' (x.outcome m).1 ∧ ∀ v, seen v → v.Among objects'

variable {among : List Value → α → Prop} {among' : List Value → β → Prop}
  {seen seen' : Value → Prop} {x : Eval α} {m : Machine} {objects : List Value}

lemma Enlists.of_seen (h : Enlists among seen x m objects) (hseen : ∀ v, seen' v → seen v) :
    Enlists among seen' x m objects := by
  obtain ⟨objects', hle, hm', hr, hall⟩ := h
  exact ⟨objects', hle, hm', hr, fun v hv => hall v (hseen v hv)⟩

/-- No object is made and no value is seen. -/
lemma Enlists.of_hasMade (hm' : (x.outcome m).2.HasMade objects)
    (hr : OutcomeAmong among objects (x.outcome m).1) :
    Enlists among (fun _ => False) x m objects :=
  ⟨objects, List.prefix_rfl, hm', hr, nofun⟩

/-- One evaluation after the other. What is seen in the second is told by the result of the first
and the machine it leaves behind. -/
lemma Enlists.bind {after : α → Machine → Value → Prop} {f : α → Eval β}
    (hx : Enlists among seen x m objects)
    (hf : ∀ a m₁ objects₁, objects <+: objects₁ → m₁.HasMade objects₁ → among objects₁ a →
      Enlists among' (after a m₁) (f a) m₁ objects₁)
    (hseen : ∀ v, seen' v → seen v ∨ ∃ a m₁, x.outcome m = (.ok a, m₁) ∧ after a m₁ v) :
    Enlists among' seen' (x >>= f) m objects := by
  obtain ⟨objects₁, hle, hm₁, hr, hall⟩ := hx
  rcases hout : x.outcome m with ⟨i | a, m₁⟩ <;> rw [hout] at hm₁ hr
  · refine ⟨objects₁, hle, ?_, ?_, fun v hv => ?_⟩
    · rw [outcome_bind_of_error hout]
      exact hm₁
    · rw [outcome_bind_of_error hout]
      cases i with
      | returned v => exact hr
      | failed fault => trivial
      | exhausted => trivial
    · obtain hv | ⟨a, m', hok, -⟩ := hseen v hv
      · exact hall v hv
      · cases hout.symm.trans hok
  · obtain ⟨objects₂, hle₂, hm₂, hr₂, hall₂⟩ := hf a m₁ objects₁ hle hm₁ hr
    rw [← outcome_bind_of_ok hout f] at hm₂ hr₂
    refine ⟨objects₂, hle.trans hle₂, hm₂, hr₂, fun v hv => ?_⟩
    obtain hv | ⟨a', m', hok, hv⟩ := hseen v hv
    · exact (hall v hv).mono hle₂
    · obtain ⟨rfl, rfl⟩ : a = a' ∧ m₁ = m' := by simpa using hout.symm.trans hok
      exact hall₂ v hv

/-- Nothing is seen in the second evaluation. -/
lemma Enlists.bind_unseen {f : α → Eval β} (hx : Enlists among seen x m objects)
    (hf : ∀ a m₁ objects₁, objects <+: objects₁ → m₁.HasMade objects₁ → among objects₁ a →
      Enlists among' (fun _ => False) (f a) m₁ objects₁) :
    Enlists among' seen (x >>= f) m objects :=
  hx.bind hf fun _ => Or.inl

lemma Enlists.pure (hm : m.HasMade objects) {a : α} (ha : among objects a) :
    Enlists among (fun _ => False) (pure a) m objects :=
  .of_hasMade hm ha

lemma enlists_fail (hm : m.HasMade objects) (cause : Cause) (line : Nat) :
    Enlists among (fun _ => False) (fail cause line) m objects :=
  .of_hasMade hm trivial

lemma enlists_exhausted (hm : m.HasMade objects) :
    Enlists among (fun _ => False) (throw .exhausted) m objects :=
  .of_hasMade hm trivial

lemma Enlists.newObject (hm : m.HasMade objects) {x : Eval Value} {v : Value}
    (hout : x.outcome m = (.ok v, { m with nextObject := m.nextObject + 1 }))
    (hv : v.Among (objects ++ [v])) : Enlists Value.Among (fun _ => False) x m objects := by
  refine ⟨objects ++ [v], List.prefix_append _ _, ?_, ?_, nofun⟩
  · rw [hout]
    exact hm.concat v
  · rw [hout]
    exact hv

lemma OperationEnd.enlists {operands : List Value} {x : Eval Value}
    (h : OperationEnd operands m (x.outcome m)) (hm : m.HasMade objects)
    (hoperands : AllAmong objects operands) :
    Enlists Value.Among (fun _ => False) x m objects := by
  generalize hout : x.outcome m = end_ at h
  cases h with
  | failed fault => exact .of_hasMade (by rwa [hout]) (by rw [hout]; trivial)
  | known hv hheap hnext =>
    refine .of_hasMade ?_ ?_
    · rw [hout]
      exact hm.of_eq hheap hnext
    · rw [hout]
      exact hv.elim .plain fun hfound => hfound.among hoperands
  | newString text =>
    refine .newObject hm hout ?_
    rw [hm.count]
    exact Value.among_concat_str objects text
  | newArray helements =>
    refine .newObject hm hout ?_
    rw [hm.count]
    exact AllAmong.concat_array fun x hx => (helements x hx).among hoperands

lemma enlists_lookup (hm : m.HasMade objects) (env : Env) (id : Identifier) :
    Enlists Value.Among (fun _ => False) (lookup env id) m objects := by
  have hout := outcome_lookup env id m
  refine .of_hasMade (by rwa [hout]) ?_
  rw [hout]
  rcases hget : m.heap.get? env id.name with _ | v
  · rcases Builtin.ofName? id.name with _ | b
    · trivial
    · exact .plain (.builtin b)
  · exact hm.binds.get? hget

lemma enlists_newClosure (hm : m.HasMade objects) (lambda : Lambda) (env : Env) :
    Enlists Value.Among (fun _ => False) (newClosure lambda env) m objects := by
  refine .newObject hm (outcome_newClosure lambda env m) ?_
  rw [hm.count]
  exact Value.among_concat_closure objects lambda env

end Enlisting

/-! ## Constructs -/

/-- What a construct does when its operands have been evaluated. -/
def combine (policy : ReleasePolicy) (eval : Expr → Env → Eval Value) (e : Expr) (env : Env)
    (values : List Value) : Eval Value :=
  match e, values with
  | .ident id, _ => lookup env id
  | .int _ value, _ => pure (.int value)
  | .str _ value, _ => newString value
  | .bool _ value, _ => pure (.bool value)
  | .function token params body, _ => newClosure ⟨token, params, body⟩ env
  | .unary token op _, [v] => unary op v token.line
  | .binary token op _ _, [v, w] => binary op v w token.line
  | .cond _ _ consequence alternative, [v] =>
    branch eval env (if v.truthy then some consequence else alternative)
  | .call token _ _, callee :: args => apply policy eval callee args token.line
  | .array _ _, values => newArray values
  | .index token _ _, [base, place] => index base place token.line
  | _, _ => throw .exhausted

lemma construct_eq_combine (policy : ReleasePolicy) (eval : Expr → Env → Eval Value) (e : Expr)
    (env : Env) :
    construct policy eval e env =
      expressions eval env e.operands >>= combine policy eval e env := by
  cases e with
  | array => rfl
  | _ => simp [construct, Expr.operands, expressions, combine]

end Eval

/-! ## What is seen in an evaluation -/

/-- To evaluate the one expression is, among other things, to evaluate the other, in the same
environment or in that of a call. -/
inductive Visit.Includes : Visit → Visit → Prop
  | leads {v v' : Visit} : v.Leads v' → Includes v v'
  | calls {v v' : Visit} {c : Call} : v.Makes c → c.Opens v' → Includes v v'

/-- The value is that of the expression visited, or that of one evaluated in its course. -/
def Visit.Shows (v : Visit) (w : Value) : Prop :=
  ∃ v', Relation.ReflTransGen Visit.Includes v v' ∧
    ∃ m', (Eval.expression .eager v'.depth v'.expr v'.env).outcome v'.machine = (.ok w, m')

namespace Eval

/-- The value is shown by one of the expressions. -/
def ExpressionsShow (depth : Nat) (env : Env) (es : List Expr) (m : Machine) (w : Value) : Prop :=
  ∃ d m', Turn (expression .eager depth) env es m d m' ∧ Visit.Shows ⟨depth, d, env, m'⟩ w

/-- The value is shown by one of the statements. -/
def StatementsShow (depth : Nat) (env : Env) (ss : List Stmt) (m : Machine) (w : Value) : Prop :=
  ∃ d m', StatementTurn (expression .eager depth) env ss m d m' ∧ Visit.Shows ⟨depth, d, env, m'⟩ w

/-- The value is shown when the operands of a construct have been evaluated: in a branch or in the
body of a call. -/
def CombineShows (depth : Nat) (e : Expr) (env : Env) (values : List Value) (m : Machine)
    (w : Value) : Prop :=
  match e, values with
  | .cond _ _ consequence alternative, [v] =>
    ∃ chosen, (if v.truthy then some consequence else alternative) = some chosen ∧
      StatementsShow depth env chosen.statements m w
  | .call token _ _, callee :: args =>
    ∃ v', Call.Opens ⟨depth, callee, args, token.line, m⟩ v' ∧ v'.Shows w
  | _, _ => False

/-- The value is shown in the course of a construct: by an operand or after all of them. -/
def ConstructShows (depth : Nat) (e : Expr) (env : Env) (m : Machine) (w : Value) : Prop :=
  ExpressionsShow depth env e.operands m w ∨
    ∃ values m₁,
      (expressions (expression .eager depth) env e.operands).outcome m = (.ok values, m₁) ∧
        CombineShows depth e env values m₁ w

lemma constructShows_of_includes {depth : Nat} {e : Expr} {env : Env} {m : Machine} {v' : Visit}
    {w : Value} (h : Visit.Includes ⟨depth + 1, e, env, m⟩ v') (hw : v'.Shows w) :
    ConstructShows depth e env m w := by
  cases h with
  | leads hleads =>
    cases hleads with
    | operand hturn => exact Or.inl ⟨_, _, hturn, hw⟩
    | branch hcondition hchosen hturn =>
      exact Or.inr ⟨[_], _, outcome_bind_of_ok hcondition _, _, hchosen, _, _, hturn, hw⟩
  | calls hmakes hopens =>
    cases hmakes with
    | call hcallee hargs =>
      refine Or.inr ⟨_ :: _, _, ?_, _, hopens, hw⟩
      exact (outcome_bind_of_ok hcallee _).trans (outcome_bind_of_ok hargs _)

/-- Evaluation to a depth enlists all objects, whatever is evaluated. -/
def EnlistsTo (depth : Nat) : Prop :=
  ∀ (e : Expr) (env : Env) (m : Machine) (objects : List Value), m.HasMade objects →
    Enlists Value.Among (Visit.Shows ⟨depth, e, env, m⟩) (expression .eager depth e env) m objects

section Course

variable {depth : Nat} (heval : EnlistsTo depth) {m : Machine} {objects : List Value}
  (hm : m.HasMade objects)
include heval hm

lemma EnlistsTo.statement (s : Stmt) (env : Env) :
    Enlists AllAmong (Visit.Shows ⟨depth, s.value, env, m⟩)
      (statement (expression .eager depth) s env) m objects := by
  cases s with
  | bind _ id value =>
    refine (heval value env m objects hm).bind_unseen fun v m₁ objects₁ _ hm₁ hv => ?_
    exact .of_hasMade (hm₁.define env id.name hv) nofun
  | ret _ value =>
    exact (heval value env m objects hm).bind_unseen fun v m₁ objects₁ _ hm₁ hv =>
      .of_hasMade hm₁ hv
  | expr _ value =>
    refine (heval value env m objects hm).bind_unseen fun v m₁ objects₁ _ hm₁ hv => ?_
    refine .pure hm₁ fun w hw => ?_
    obtain rfl := Option.mem_some.1 hw
    exact hv

lemma EnlistsTo.statements (ss : List Stmt) (env : Env) {result : Option Value}
    (hresult : AllAmong objects result) :
    Enlists AllAmong (StatementsShow depth env ss m)
      (statements (expression .eager depth) env result ss) m objects := by
  induction ss generalizing m objects result with
  | nil => exact (Enlists.pure hm hresult).of_seen fun w ⟨_, _, hturn, _⟩ => by cases hturn
  | cons s rest ih =>
    refine (heval.statement hm s env).bind (fun r m₁ objects₁ _ hm₁ hr => ih hm₁ hr) ?_
    rintro w ⟨d, m', hturn, hw⟩
    cases hturn with
    | head => exact Or.inl hw
    | tail hs hturn => exact Or.inr ⟨_, _, hs, d, m', hturn, hw⟩

lemma EnlistsTo.expressions (es : List Expr) (env : Env) :
    Enlists AllAmong (ExpressionsShow depth env es m)
      (expressions (expression .eager depth) env es) m objects := by
  induction es generalizing m objects with
  | nil => exact (Enlists.pure hm nofun).of_seen fun w ⟨_, _, hturn, _⟩ => by cases hturn
  | cons e rest ih =>
    have hrest : ∀ (v : Value) m₁ objects₁, objects <+: objects₁ → m₁.HasMade objects₁ →
        v.Among objects₁ → Enlists AllAmong (ExpressionsShow depth env rest m₁)
          (do return v :: (← Eval.expressions (expression .eager depth) env rest)) m₁ objects₁ := by
      intro v m₁ objects₁ _ hm₁ hv
      refine (ih hm₁).bind_unseen fun vs m₂ objects₂ hle hm₂ hvs => ?_
      exact .pure hm₂ (List.forall_mem_cons.2 ⟨hv.mono hle, hvs⟩)
    refine (heval e env m objects hm).bind hrest ?_
    rintro w ⟨d, m', hturn, hw⟩
    cases hturn with
    | head => exact Or.inl hw
    | tail he hturn => exact Or.inr ⟨_, _, he, d, m', hturn, hw⟩

lemma EnlistsTo.block (b : Block) (env : Env) :
    Enlists AllAmong (StatementsShow depth env b.statements m)
      (block (expression .eager depth) b env) m objects :=
  heval.statements hm b.statements env nofun

lemma EnlistsTo.branch (env : Env) (chosen? : Option Block) :
    Enlists Value.Among
      (fun w => ∃ chosen, chosen? = some chosen ∧ StatementsShow depth env chosen.statements m w)
      (branch (expression .eager depth) env chosen?) m objects := by
  cases chosen? with
  | none => exact (Enlists.pure hm (.plain .null)).of_seen fun w ⟨_, h, _⟩ => by cases h
  | some b =>
    have hblock : Enlists Value.Among (StatementsShow depth env b.statements m)
        (Eval.branch (expression .eager depth) env (some b)) m objects :=
      (heval.block hm b env).bind_unseen fun _ _ _ _ hm₁ hr => .pure hm₁ hr.getD
    refine hblock.of_seen ?_
    rintro w ⟨chosen, h, hw⟩
    obtain rfl := Option.some.inj h
    exact hw

lemma EnlistsTo.applyClosure (id : ObjectId) (lambda : Lambda) (captured : Env)
    {args : List Value} (hargs : AllAmong objects args) (line : Nat) :
    Enlists Value.Among
      (fun w => ∃ v', Call.Opens ⟨depth, .closure id lambda captured, args, line, m⟩ v' ∧
        v'.Shows w)
      (applyClosure .eager (expression .eager depth) lambda captured args line) m objects := by
  by_cases hlen : lambda.params.length = args.length
  · have henter := outcome_enter lambda.params args captured m
    obtain ⟨objects', hle, hm', hr, hseen⟩ :=
      heval.block (hm.enter captured lambda.params hargs) lambda.body (entered captured m).1
    rcases hbody : (Eval.block (expression .eager depth) lambda.body (entered captured m).1).outcome
      (bound (entered captured m).1 (lambda.params.zip args) (entered captured m).2) with ⟨r, m₂⟩
    rw [hbody] at hm' hr
    rw [Enlists, outcome_applyClosure .eager _ hlen captured line m henter hbody]
    refine ⟨objects', hle, hm'.released .eager _ _, hr.callResult, ?_⟩
    rintro w ⟨v', hopens, hw⟩
    cases hopens with
    | body _ hscope hturn =>
      rw [henter, Prod.mk.injEq] at hscope
      obtain ⟨hscope, rfl⟩ := hscope
      obtain rfl := Except.ok.inj hscope
      exact hseen w ⟨_, _, hturn, hw⟩
  · rw [Eval.applyClosure, if_neg hlen]
    refine (enlists_fail hm _ line).of_seen ?_
    rintro w ⟨v', hopens, -⟩
    cases hopens with
    | body hlen' => exact hlen hlen'

lemma EnlistsTo.apply {callee : Value} {args : List Value} (hargs : AllAmong objects args)
    (line : Nat) :
    Enlists Value.Among
      (fun w => ∃ v', Call.Opens ⟨depth, callee, args, line, m⟩ v' ∧ v'.Shows w)
      (apply .eager (expression .eager depth) callee args line) m objects := by
  cases callee with
  | closure id lambda captured => exact heval.applyClosure hm id lambda captured hargs line
  | builtin b =>
    refine ((operationEnd_builtinCall b args line m).enlists hm hargs).of_seen ?_
    rintro w ⟨v', hopens, -⟩
    cases hopens
  | _ =>
    refine (enlists_fail hm _ line).of_seen ?_
    rintro w ⟨v', hopens, -⟩
    cases hopens

lemma EnlistsTo.combine (e : Expr) (env : Env) {values : List Value}
    (hvalues : AllAmong objects values) :
    Enlists Value.Among (CombineShows depth e env values m)
      (combine .eager (expression .eager depth) e env values) m objects := by
  rw [Eval.combine.eq_def, funext (CombineShows.eq_def depth e env values m)]
  split
  · exact heval.branch hm env _
  · exact heval.apply hm (fun v hv => hvalues v (List.mem_cons_of_mem _ hv)) _
  · rename_i hcond hcall
    -- nothing is seen after the operands of the other constructs
    split
    · exact enlists_lookup hm env _
    · exact .pure hm (.plain (.int _))
    · exact OperationEnd.enlists (.newString _) hm hvalues
    · exact .pure hm (.plain (.bool _))
    · exact enlists_newClosure hm _ env
    · exact (operationEnd_unary _ _ _ m).enlists hm hvalues
    · exact (operationEnd_binary _ _ _ _ m).enlists hm hvalues
    · exact (hcond _ _ _ _ _ rfl rfl).elim
    · exact (hcall _ _ _ _ _ rfl rfl).elim
    · exact OperationEnd.enlists (.newArray fun x hx => Or.inl hx) hm hvalues
    · exact (operationEnd_index _ _ _ m).enlists hm hvalues
    · exact enlists_exhausted hm

lemma EnlistsTo.construct (e : Expr) (env : Env) :
    Enlists Value.Among (ConstructShows depth e env m)
      (construct .eager (expression .eager depth) e env) m objects := by
  rw [construct_eq_combine]
  exact (heval.expressions hm e.operands env).bind
    (fun _ _ _ _ hm₁ hvalues => heval.combine hm₁ e env hvalues) fun _ => id

end Course

/-- Evaluation to any depth enlists the objects, for all values shown in its course. -/
lemma enlistsTo (depth : Nat) : EnlistsTo depth := by
  induction depth with
  | zero =>
    intro e env m objects hm
    refine (enlists_exhausted hm).of_seen ?_
    rintro w ⟨v', hreach, m', hout⟩
    obtain rfl | ⟨v₁, hstep, -⟩ := hreach.cases_head
    · cases hout
    · rcases hstep with hleads | ⟨hmakes, -⟩
      · cases hleads
      · cases hmakes
  | succ depth heval =>
    intro e env m objects hm
    obtain ⟨objects', hle, hm', hr, hseen⟩ := heval.construct hm e env
    refine ⟨objects', hle, hm', hr, ?_⟩
    rintro w ⟨v', hreach, m', hout⟩
    obtain rfl | ⟨v₁, hstep, hreach⟩ := hreach.cases_head
    · rw [show (construct .eager (expression .eager depth) e env).outcome m = _ from hout] at hr
      exact hr
    · exact hseen w (constructShows_of_includes hstep ⟨v', hreach, m', hout⟩)

end Eval

/-! ## Machines in use -/

namespace Machine

/-- The value comes up in a use of the machine: an expression evaluated in its course has it. -/
inductive UseShows (m : Machine) : Use → Value → Prop
  | evaluate {p : Program} {env : Env} {depth : Nat} {w : Value} :
      Eval.StatementsShow depth env p.statements m w → UseShows m (.evaluate p env depth) w

lemma exists_hasMade_use {m : Machine} {objects : List Value} (hm : m.HasMade objects) (u : Use) :
    ∃ objects', objects <+: objects' ∧ (m.use u).HasMade objects' ∧
      ∀ w, m.UseShows u w → w.Among objects' := by
  cases u with
  | evaluate p env depth =>
    obtain ⟨objects', hle, hm', -, hseen⟩ :=
      (Eval.enlistsTo depth).block hm ⟨default, p.statements⟩ env
    refine ⟨objects', hle, ?_, ?_⟩
    · rw [use, evaluate_eq, evaluateUnder, Eval.program, Eval.outcome_programStatements]
      exact hm'
    · rintro w ⟨hw⟩
      exact hseen w hw
  | collectGarbage roots =>
    exact ⟨objects, List.prefix_rfl, ⟨hm.count, hm.binds.collectGarbage roots⟩,
      fun w hw => by cases hw⟩
  | takePrinted => exact ⟨objects, List.prefix_rfl, hm.of_eq rfl rfl, fun w hw => by cases hw⟩

/-- The value comes up while the machine is used for one thing after the other, by itself or as an
element of an array. -/
inductive Arises (m : Machine) (uses : List Use) : Value → Prop
  | shown (before : List Use) {after : List Use} {u : Use} {w : Value} :
      uses = before ++ u :: after → (before.foldl use m).UseShows u w → Arises m uses w
  | element {id : ObjectId} {xs : List Value} {w : Value} :
      Arises m uses (.array id xs) → w ∈ xs → Arises m uses w

/-- One list serves for all values that come up, and a later use does not change what is there. -/
lemma exists_hasMade_uses (uses : List Use) {m : Machine} {objects : List Value}
    (hm : m.HasMade objects) :
    ∃ objects', objects <+: objects' ∧ (uses.foldl use m).HasMade objects' ∧
      ∀ before u after w, uses = before ++ u :: after → (before.foldl use m).UseShows u w →
        w.Among objects' := by
  induction uses generalizing m objects with
  | nil => exact ⟨objects, List.prefix_rfl, hm, fun before u after w h => by simp at h⟩
  | cons first rest ih =>
    obtain ⟨objects₁, hle₁, hm₁, hfirst⟩ := exists_hasMade_use hm first
    obtain ⟨objects₂, hle₂, hm₂, hrest⟩ := ih hm₁
    refine ⟨objects₂, hle₁.trans hle₂, hm₂, fun before u after w h hw => ?_⟩
    cases before with
    | nil =>
      obtain ⟨rfl, -⟩ := List.cons.inj h
      exact (hfirst w hw).mono hle₂
    | cons u' before =>
      obtain ⟨rfl, hsplit⟩ := List.cons.inj h
      exact hrest before u after w hsplit hw

/-- Identity determines content: of the values that come up in all that a new machine is used for,
identical ones are the same. -/
lemma Arises.eq_of_identical {uses : List Use} {v w : Value} (hv : Machine.initial.Arises uses v)
    (hw : Machine.initial.Arises uses w) (h : v.identical w = true) : v = w := by
  obtain ⟨objects, -, -, hshown⟩ := exists_hasMade_uses uses hasMade_initial
  have hamong : ∀ v, Machine.initial.Arises uses v → v.Among objects := by
    intro v hv
    induction hv with
    | shown before huses hw => exact hshown before _ _ _ huses hw
    | element _ hw ih => exact ih.elements _ hw
  exact (hamong v hv).eq_of_identical (hamong w hw) h

end Machine

end Bhasha
