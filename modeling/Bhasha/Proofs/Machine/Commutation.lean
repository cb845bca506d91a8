import Bhasha.Proofs.Machine.Depth
import Bhasha.Proofs.Machine.Scopes
import Bhasha.Proofs.Machine.Sessions

/-!
Relabelling a program commutes with running it.

A program and the relabelled program are run on a machine and on the relabelled machine. Frames
are made in the same slots and given back at the same moments on both, so the second run is the
first one relabelled. For this no binding may change its meaning, and what that takes is a
property of the first run alone: every environment has a set of names that can occur in it, the
names of a frame are in the set of its environment, and a name that a frame does not bind is in
the set of the environment around it. The run makes frames, so it also chooses sets for them.

`Eval.Commutes` says both of one evaluation: the equation between the two runs, and that the
environments of the first run still have such sets. It is proved for each construct from its parts,
and then for all expressions by induction on the depth to which they may nest.
-/

namespace Bhasha.Eval

variable {α β : Type} [Relabellable α] [Relabellable β] {ψ : Relabelling}
  {names : Env → Set String} {m : Machine} {env : Env} {scope : Set String}

/-- The second evaluation is the first one relabelled, and environments have sets of names at the
end as they had at the beginning. -/
def Commutes (ψ : Relabelling) (names : Env → Set String) (x x' : Eval α) (m : Machine) : Prop :=
  x'.outcome (m.relabel ψ) = (Relabellable.relabel ψ (x.outcome m).1, (x.outcome m).2.relabel ψ) ∧
    ∃ names', Machine.Keeps names m names' (x.outcome m).2 ∧ (x.outcome m).2.Suits ψ names' ∧
      (x.outcome m).2.Admits ψ names' (x.outcome m).1

/-- An evaluation that leaves the heap as it is. -/
lemma Commutes.of_heap_eq {x x' : Eval α} {r : Except Interrupt α} {m₁ : Machine}
    (hm : m.Suits ψ names) (hx : x.outcome m = (r, m₁))
    (hx' : x'.outcome (m.relabel ψ) = (Relabellable.relabel ψ r, m₁.relabel ψ))
    (hheap : m₁.heap = m.heap) (hr : m.Admits ψ names r) : Commutes ψ names x x' m := by
  unfold Commutes
  rw [hx, hx']
  have hkeeps : Machine.Keeps names m names m₁ := fun e he => ⟨hheap ▸ he, rfl⟩
  exact ⟨rfl, names, hkeeps, hm.of_heap_eq hheap, hkeeps.admits hr⟩

lemma Commutes.pure (hm : m.Suits ψ names) {a a' : α} (ha : m.Admits ψ names a)
    (heq : a' = Relabellable.relabel ψ a) : Commutes ψ names (pure a) (pure a') m :=
  .of_heap_eq hm rfl (by rw [heq]; rfl) rfl ha

lemma Commutes.throw (hm : m.Suits ψ names) {i : Interrupt} (hi : m.Admits ψ names i) :
    Commutes ψ names (throw i : Eval α) (throw (Relabellable.relabel ψ i)) m :=
  .of_heap_eq hm rfl rfl rfl hi

lemma Commutes.fail (hm : m.Suits ψ names) (cause : Cause) (line : Nat) :
    Commutes ψ names (fail cause line : Eval α) (fail cause (ψ.line line)) m :=
  .throw hm fun _ _ h => h.elim

lemma Commutes.bind {x x' : Eval α} {f f' : α → Eval β} (hx : Commutes ψ names x x' m)
    (hf : ∀ a names₁ m₁, Machine.Keeps names m names₁ m₁ → m₁.Suits ψ names₁ →
      m₁.Admits ψ names₁ a → Commutes ψ names₁ (f a) (f' (Relabellable.relabel ψ a)) m₁) :
    Commutes ψ names (x >>= f) (x' >>= f') m := by
  obtain ⟨heq, names₁, hkeeps, hm₁, ha⟩ := hx
  rcases hout : x.outcome m with ⟨i | a, m₁⟩
  · rw [hout] at heq hkeeps hm₁ ha
    unfold Commutes
    rw [outcome_bind_of_error hout, outcome_bind_of_error heq]
    exact ⟨rfl, names₁, hkeeps, hm₁, ha⟩
  · rw [hout] at heq hkeeps hm₁ ha
    obtain ⟨heq₂, names₂, hkeeps₂, hm₂, hb⟩ := hf a names₁ m₁ hkeeps hm₁ ha
    unfold Commutes
    rw [outcome_bind_of_ok hout, outcome_bind_of_ok heq]
    exact ⟨heq₂, names₂, hkeeps.trans hkeeps₂, hm₂, hb⟩

lemma Commutes.check (hm : m.Suits ψ names) {r : Except Cause α}
    (hr : ∀ a, r = .ok a → m.Admits ψ names a) (line : Nat) :
    Commutes ψ names (check line r) (check (ψ.line line) (r.map (Relabellable.relabel ψ))) m := by
  cases r with
  | error cause => exact .fail hm cause line
  | ok a => exact .pure hm (hr a rfl) rfl

lemma Commutes.newString (hm : m.Suits ψ names) (text : String) :
    Commutes ψ names (newString text) (newString text) m :=
  .of_heap_eq hm rfl rfl rfl (Machine.admits_of_not_holds fun _ he => by cases he)

lemma Commutes.newArray (hm : m.Suits ψ names) {vs : List Value} (hvs : m.Admits ψ names vs) :
    Commutes ψ names (newArray vs) (newArray (vs.map (Value.relabel ψ))) m := by
  have heq : (Value.array m.nextObject vs).relabel ψ = _ := Value.mapParts_array m.nextObject vs
  refine .of_heap_eq hm rfl ?_ rfl (hvs.array m.nextObject)
  exact congrArg (fun v => (Except.ok v, _)) heq.symm

lemma Commutes.newClosure (hm : m.Suits ψ names) (henv : Machine.HasScope names m env scope)
    {lambda : Lambda} (hfits : lambda.Fits ψ scope) :
    Commutes ψ names (newClosure lambda env) (newClosure (lambda.relabel ψ) env) m := by
  refine .of_heap_eq hm rfl rfl rfl fun lambda' e hcarries => ?_
  cases hcarries with
  | closure => exact ⟨henv.1, henv.2 ▸ hfits⟩

lemma Commutes.print (hm : m.Suits ψ names) (v : Value) :
    Commutes ψ names (print v) (print (v.relabel ψ)) m := by
  refine .of_heap_eq hm rfl ?_ rfl fun _ _ h => h.elim
  rw [outcome_print]
  simp [Machine.relabel, Relabellable.relabel]

lemma Commutes.define (hm : m.Suits ψ names) (henv : Machine.HasScope names m env scope)
    {name : String} (hname : name ∈ scope) {v : Value} (hv : m.Admits ψ names v) :
    Commutes ψ names (define env name v) (define env (ψ.name name) (v.relabel ψ)) m := by
  refine ⟨?_, names, fun e he => ⟨by simpa using he, rfl⟩, hm.define henv hname hv,
    fun _ _ h => h.elim⟩
  rw [outcome_define, outcome_define]
  refine Prod.ext rfl ?_
  simp only [Machine.relabel, hm.set_relabel henv hname]

lemma Commutes.lookup (hm : m.Suits ψ names) (henv : Machine.HasScope names m env scope)
    {id : Identifier} (hid : id.name ∈ scope) :
    Commutes ψ names (lookup env id) (lookup env (id.relabel ψ)) m := by
  have hget : (m.relabel ψ).heap.get? env (id.relabel ψ).name =
      (m.heap.get? env id.name).map (Value.relabel ψ) := hm.get?_relabel henv hid
  have hx := outcome_lookup env id m
  have hx' := outcome_lookup env (id.relabel ψ) (m.relabel ψ)
  rw [hget] at hx'
  rcases hv : m.heap.get? env id.name with _ | v
  · -- the name is a builtin or means nothing, and in both cases it has not changed
    have hself : (id.relabel ψ).name = id.name := hm.name_eq_self henv hid hv
    rw [hv] at hx hx'
    rw [hself] at hx'
    rcases hb : Builtin.ofName? id.name with _ | b
    · rw [hb] at hx hx'
      refine .of_heap_eq hm hx (hx'.trans ?_) rfl fun _ _ h => h.elim
      simp [Identifier.relabel, ψ.line_token, Relabellable.relabel, Fault.relabel]
    · rw [hb] at hx hx'
      refine .of_heap_eq hm hx hx' rfl fun _ _ hcarries => ?_
      cases hcarries
  · rw [hv] at hx hx'
    exact .of_heap_eq hm hx hx' rfl (hm.admits_get? hv)

/-! ## Operators -/

/-- A result without closures has nothing to relabel. -/
lemma map_relabel_of_not_holds {r : Except Cause Value}
    (h : ∀ v, r = .ok v → ∀ e, ¬ v.Holds e) : r.map (Value.relabel ψ) = r := by
  cases r with
  | error cause => rfl
  | ok v => exact congrArg Except.ok (v.mapParts_of_not_holds (h v rfl))

lemma Commutes.check_of_not_holds (hm : m.Suits ψ names) {r : Except Cause Value}
    (h : ∀ v, r = .ok v → ∀ e, ¬ v.Holds e) (line : Nat) :
    Commutes ψ names (Eval.check line r) (Eval.check (ψ.line line) r) m := by
  have hcheck : Commutes ψ names (Eval.check line r)
      (Eval.check (ψ.line line) (r.map (Value.relabel ψ))) m :=
    .check hm (fun v hv => Machine.admits_of_not_holds (h v hv)) line
  rwa [map_relabel_of_not_holds h] at hcheck

lemma Commutes.unary (hm : m.Suits ψ names) (op : UnaryOp) (v : Value) (line : Nat) :
    Commutes ψ names (unary op v line) (unary op (v.relabel ψ) (ψ.line line)) m := by
  unfold Eval.unary
  rw [onValue_mapParts]
  exact .check_of_not_holds hm (fun _ hv => (plain_onValue hv).not_holds) line

lemma Commutes.index (hm : m.Suits ψ names) {v : Value} (hv : m.Admits ψ names v) (w : Value)
    (line : Nat) :
    Commutes ψ names (Eval.index v w line)
      (Eval.index (v.relabel ψ) (w.relabel ψ) (ψ.line line)) m := by
  unfold Eval.index
  rw [elementAt_mapParts]
  exact .check hm (fun u hu => Relabellable.CarriesOnly.elementAt hu hv) line

lemma Commutes.binary (hm : m.Suits ψ names) (op : BinaryOp) (v w : Value) (line : Nat) :
    Commutes ψ names (binary op v w line)
      (binary op (v.relabel ψ) (w.relabel ψ) (ψ.line line)) m := by
  by_cases hint : v.type = .int ∧ w.type = .int
  · obtain ⟨a, rfl⟩ := Value.type_eq_int.1 hint.1
    obtain ⟨b, rfl⟩ := Value.type_eq_int.1 hint.2
    exact .check_of_not_holds hm (fun _ hv => (plain_onIntegers hv).not_holds) line
  by_cases hstr : v.type = .str ∧ w.type = .str
  · obtain ⟨i, s, rfl⟩ := Value.type_eq_str.1 hstr.1
    obtain ⟨j, t, rfl⟩ := Value.type_eq_str.1 hstr.2
    have hjoin : Commutes ψ names (Eval.check line (op.onStrings s t))
        (Eval.check (ψ.line line) (op.onStrings s t)) m := by
      rcases op.onStrings s t with cause | text
      · exact .fail hm cause line
      · exact .pure hm (fun _ _ h => h.elim) rfl
    exact hjoin.bind fun text names₁ m₁ _ hm₁ _ => .newString hm₁ text
  rw [binary_of_type_ne hint hstr, binary_of_type_ne (by simpa using hint) (by simpa using hstr),
    Value.type_mapParts, Value.type_mapParts, onIdentity_mapParts Function.injective_id]
  split
  · exact .check_of_not_holds hm (fun _ hv => (plain_onIdentity hv).not_holds) line
  · exact .fail hm _ line

/-! ## Builtins -/

lemma Commutes.elements (hm : m.Suits ψ names) (b : Builtin) {args : List Value}
    (hargs : m.Admits ψ names args) (line : Nat) :
    Commutes ψ names (Eval.check line (b.elements args))
      (Eval.check (ψ.line line) (b.elements (args.map (Value.relabel ψ)))) m := by
  rw [b.elements_mapParts]
  exact .check hm (fun _ helements => Relabellable.CarriesOnly.elements helements hargs) line

lemma Commutes.extended (hm : m.Suits ψ names) (b : Builtin) {args : List Value}
    (hargs : m.Admits ψ names args) (line : Nat) :
    Commutes ψ names (Eval.check line (b.extended args))
      (Eval.check (ψ.line line) (b.extended (args.map (Value.relabel ψ)))) m := by
  rw [b.extended_mapParts]
  exact .check hm (fun _ helements => Relabellable.CarriesOnly.extended helements hargs) line

lemma Commutes.printAll (hm : m.Suits ψ names) (vs : List Value) :
    Commutes ψ names (vs.forM Eval.print) ((vs.map (Value.relabel ψ)).forM Eval.print) m := by
  induction vs generalizing names m with
  | nil => exact .pure hm (fun _ _ h => h.elim) rfl
  | cons v vs ih => exact (Commutes.print hm v).bind fun _ names₁ m₁ _ hm₁ _ => ih hm₁

lemma Commutes.builtinBody (hm : m.Suits ψ names) (b : Builtin) {args : List Value}
    (hargs : m.Admits ψ names args) (line : Nat) :
    Commutes ψ names (b.body args line)
      (b.body (args.map (Value.relabel ψ)) (ψ.line line)) m := by
  -- an element that may be missing is the same one in both runs
  have hpick : ∀ pick : List Value → Option Value,
      (∀ xs v, pick xs = some v → v ∈ xs) →
      (∀ xs, pick (xs.map (Value.relabel ψ)) = (pick xs).map (Value.relabel ψ)) →
      Commutes ψ names (do return (pick (← Eval.check line (b.elements args))).getD .null)
        (do return (pick (← Eval.check (ψ.line line)
          (b.elements (args.map (Value.relabel ψ))))).getD .null) m := by
    intro pick hmem hmap
    refine (Commutes.elements hm b hargs line).bind fun xs names₁ m₁ _ hm₁ hxs => ?_
    have hpicked : m₁.Admits ψ names₁ (pick xs) := by
      rintro lambda e ⟨v, hv, hcarries⟩
      exact hxs lambda e ⟨v, hmem xs v hv, hcarries⟩
    refine .pure hm₁ hpicked.getD ((congrArg (Option.getD · .null) (hmap xs)).trans ?_)
    exact Value.relabel_getD (pick xs)
  cases b with
  | len =>
    show Commutes ψ names (Eval.check line (Builtin.length args))
      (Eval.check (ψ.line line) (Builtin.length (args.map (Value.relabel ψ)))) m
    rw [Builtin.length_mapParts]
    refine .check_of_not_holds hm (fun v hv e he => ?_) line
    obtain ⟨n, rfl⟩ := Builtin.eq_of_length_eq_ok hv
    cases he
  | first | head => exact hpick List.head? (fun _ _ => List.mem_of_head?) fun _ => List.head?_map
  | last => exact hpick List.getLast? (fun _ _ => List.mem_of_getLast?) fun _ => List.getLast?_map
  | rest | tail =>
    refine (Commutes.elements hm _ hargs line).bind fun xs names₁ m₁ _ hm₁ hxs => ?_
    cases xs with
    | nil => exact .pure hm₁ (fun _ _ hcarries => by cases hcarries) rfl
    | cons v others =>
      refine .newArray hm₁ ?_
      rintro lambda e ⟨w, hw, hcarries⟩
      exact hxs lambda e ⟨w, by simp [hw], hcarries⟩
  | push | append =>
    exact (Commutes.extended hm _ hargs line).bind fun xs names₁ m₁ _ hm₁ hxs => .newArray hm₁ hxs
  | print | puts =>
    exact (Commutes.printAll hm args).bind fun _ names₁ m₁ _ hm₁ _ =>
      .pure hm₁ (fun _ _ hcarries => by cases hcarries) rfl

lemma Commutes.builtinCall (hm : m.Suits ψ names) (b : Builtin) {args : List Value}
    (hargs : m.Admits ψ names args) (line : Nat) :
    Commutes ψ names (b.call args line)
      (b.call (args.map (Value.relabel ψ)) (ψ.line line)) m := by
  unfold Builtin.call
  rw [List.length_map]
  split
  · exact .builtinBody hm b hargs line
  · exact .fail hm _ line

/-! ## Constructs -/

/-- An evaluator of expressions that commutes with relabelling on all machines that allow it. -/
def Commuting (ψ : Relabelling) (eval : Expr → Env → Eval Value) : Prop :=
  ∀ e names env scope m, m.Suits ψ names → Machine.HasScope names m env scope → e.Fits ψ scope →
    Commutes ψ names (eval e env) (eval (e.relabel ψ) env) m

section Constructs

variable {eval : Expr → Env → Eval Value} (heval : Commuting ψ eval)
include heval

lemma Commutes.statement (hm : m.Suits ψ names) (henv : Machine.HasScope names m env scope)
    {s : Stmt} (hfits : s.Fits ψ scope) :
    Commutes ψ names (statement eval s env) (statement eval (s.relabel ψ) env) m := by
  cases s with
  | bind token id value =>
    obtain ⟨hid, hvalue⟩ := hfits
    refine (heval value names env scope m hm henv hvalue).bind fun v names₁ m₁ hkeeps hm₁ hv => ?_
    exact (Commutes.define hm₁ (hkeeps.hasScope henv) hid hv).bind fun _ names₂ m₂ _ hm₂ _ =>
      .pure hm₂ (fun _ _ ⟨_, hv, _⟩ => nomatch hv) rfl
  | ret token value =>
    exact (heval value names env scope m hm henv hfits).bind fun v names₁ m₁ _ hm₁ hv =>
      .throw hm₁ hv
  | expr token value =>
    exact (heval value names env scope m hm henv hfits).bind fun v names₁ m₁ _ hm₁ hv =>
      .pure hm₁ hv.some rfl

lemma Commutes.statements (hm : m.Suits ψ names) (henv : Machine.HasScope names m env scope)
    {ss : List Stmt} (hfits : Stmt.FitAll ψ ss scope) {result : Option Value}
    (hresult : m.Admits ψ names result) :
    Commutes ψ names (statements eval env result ss)
      (statements eval env (result.map (Value.relabel ψ)) (Stmt.relabelAll ψ ss)) m := by
  induction ss generalizing names m result with
  | nil => exact .pure hm hresult rfl
  | cons s rest ih =>
    exact (Commutes.statement heval hm henv hfits.1).bind fun r names₁ m₁ hkeeps hm₁ hr =>
      ih hm₁ (hkeeps.hasScope henv) hfits.2 hr

lemma Commutes.block (hm : m.Suits ψ names) (henv : Machine.HasScope names m env scope)
    {b : Block} (hfits : b.Fits ψ scope) :
    Commutes ψ names (block eval b env) (block eval (b.relabel ψ) env) m := by
  obtain ⟨token, ss⟩ := b
  exact .statements heval hm henv hfits fun _ _ ⟨_, hv, _⟩ => nomatch hv

lemma Commutes.expressions (hm : m.Suits ψ names) (henv : Machine.HasScope names m env scope)
    {es : List Expr} (hfits : Expr.FitAll ψ es scope) :
    Commutes ψ names (expressions eval env es) (expressions eval env (Expr.relabelAll ψ es)) m := by
  induction es generalizing names m with
  | nil => exact .pure hm (fun _ _ ⟨_, hv, _⟩ => nomatch hv) rfl
  | cons e rest ih =>
    refine (heval e names env scope m hm henv hfits.1).bind fun v names₁ m₁ hkeeps hm₁ hv => ?_
    refine (ih hm₁ (hkeeps.hasScope henv) hfits.2).bind fun vs names₂ m₂ hkeeps' hm₂ hvs => ?_
    exact .pure hm₂ ((hkeeps'.admits hv).cons hvs) rfl

lemma Commutes.branch (hm : m.Suits ψ names) (henv : Machine.HasScope names m env scope)
    {b? : Option Block} (hfits : ∀ b ∈ b?, b.Fits ψ scope) :
    Commutes ψ names (branch eval env b?) (branch eval env (b?.map (Block.relabel ψ))) m := by
  cases b? with
  | none => exact .pure hm (fun _ _ hcarries => by cases hcarries) rfl
  | some b =>
    exact (Commutes.block heval hm henv (hfits b rfl)).bind fun v names₁ m₁ _ hm₁ hv =>
      .pure hm₁ hv.getD (Value.relabel_getD v)

omit heval in
lemma finished_relabel (r : Except Interrupt (Option Value)) :
    finished (Relabellable.relabel ψ r) = Relabellable.relabel ψ (finished r) := by
  rcases r with (v | fault | _) | v <;> rfl

lemma Commutes.programStatements (hm : m.Suits ψ names)
    (henv : Machine.HasScope names m env scope) {ss : List Stmt}
    (hfits : Stmt.FitAll ψ ss scope) {result : Option Value} (hresult : m.Admits ψ names result) :
    Commutes ψ names (programStatements eval env result ss)
      (programStatements eval env (result.map (Value.relabel ψ)) (Stmt.relabelAll ψ ss)) m := by
  obtain ⟨heq, names₁, hkeeps, hm₁, hr⟩ := Commutes.statements heval hm henv hfits hresult
  rw [Commutes, outcome_programStatements, outcome_programStatements, heq]
  exact ⟨Prod.ext (finished_relabel _) rfl, names₁, hkeeps, hm₁,
    Relabellable.CarriesOnly.finished hr⟩

/-! ## Calls -/

omit heval in
lemma callResult_relabel (r : Except Interrupt (Option Value)) :
    callResult (Relabellable.relabel ψ r) = Relabellable.relabel ψ (callResult r) := by
  rcases r with (v | fault | _) | v
  · rfl
  · rfl
  · rfl
  · exact congrArg Except.ok (Value.relabel_getD v)

omit heval in
lemma outcomeHolds_of_carries {r : Except Interrupt Value} {lambda : Lambda} {e : Env}
    (h : Relabellable.Carries r lambda e) : OutcomeHolds Value.Holds r e := by
  rcases r with (v | fault | _) | v
  · exact Value.Carries.holds h
  · exact h
  · exact h
  · exact Value.Carries.holds h

omit heval in
lemma toOption_relabel (r : Except Interrupt Value) :
    (Relabellable.relabel ψ r).toOption.getD .null = (r.toOption.getD .null).relabel ψ := by
  cases r <;> rfl

omit heval in
/-- A call of the relabelled literal begins on the relabelled machine. -/
lemma outcome_enter_relabel (hm : m.Suits ψ names) {params : List Identifier} {inner : Set String}
    (hopens : ψ.Opens scope params inner) (args : List Value) (env : Env) :
    (enter (params.map (Identifier.relabel ψ)) (args.map (Value.relabel ψ)) env).outcome
        (m.relabel ψ) =
      (.ok (entered env m).1,
        (bound (entered env m).1 (params.zip args) (entered env m).2).relabel ψ) := by
  have hentered :
      (entered env m).2.heap.frame? (entered env m).1 = some { parent := some env } := by
    rw [Machine.frame?_entered hm.sound.wellFormed, if_pos rfl]
  rw [outcome_enter, Machine.entered_relabel, List.zip_map]
  refine Prod.ext rfl ?_
  refine Machine.bound_relabel hopens.injOn (fun p hp => ?_) hentered (by simp)
  exact hopens.params_mem p.1 (List.of_mem_zip hp).1

variable {policy : ReleasePolicy} (hsafe : SafeEvaluator policy eval)
include hsafe

/-- Calls commute: the new environment gets the set of names that the function literal opens, and
the same frames are given back in the end. -/
lemma Commutes.applyClosure (hm : m.Suits ψ names) (henv : Machine.HasScope names m env scope)
    {lambda : Lambda} (hfits : lambda.Fits ψ scope) {args : List Value}
    (hargs : m.Admits ψ names args) (line : Nat) :
    Commutes ψ names (applyClosure policy eval lambda env args line)
      (applyClosure policy eval (lambda.relabel ψ) env (args.map (Value.relabel ψ)) (ψ.line line))
      m := by
  by_cases hlen : lambda.params.length = args.length
  · have hheld : ∀ e, HeldIn args e → m.heap.contains e := fun _ => hargs.contains_of_heldIn
    obtain ⟨inner, hopens, hbody⟩ := hfits
    have hin := enters_call hm.sound henv.1 lambda.params hheld
    have henter' := outcome_enter_relabel hm hopens args env
    -- the body runs in an environment with the names that the literal opens
    have hscope : Machine.HasScope (Function.update names (entered env m).1 inner)
        (bound (entered env m).1 (lambda.params.zip args) (entered env m).2) (entered env m).1
        inner := ⟨hin.contains_scope, Function.update_self _ _ _⟩
    obtain ⟨heq, names₂, hkeeps, hm₂, hr⟩ :=
      Commutes.block heval (hm.enters henv hopens hlen hargs) hscope hbody
    rcases hout : (Eval.block eval lambda.body (entered env m).1).outcome _ with ⟨r, m₂⟩
    rw [hout] at heq hkeeps hm₂ hr
    have hcall := outcome_applyClosure policy eval hlen env line m (outcome_enter _ _ _ _) hout
    have hlen' : (lambda.relabel ψ).params.length = (args.map (Value.relabel ψ)).length := by
      simpa [Lambda.relabel] using hlen
    have hcall' :=
      outcome_applyClosure policy eval hlen' env (ψ.line line) (m.relabel ψ) henter' heq
    -- what the call has kept when its frames were given back
    have hlive :
        Safe policy env Value.Holds (Eval.applyClosure policy eval lambda env args line) m :=
      .applyClosure hsafe hm.sound lambda henv.1 line hheld
    rw [Safe, hcall] at hlive
    obtain ⟨hev, houtlives⟩ := hlive
    unfold Commutes
    rw [hcall, hcall', callResult_relabel, toOption_relabel]
    refine ⟨Prod.ext rfl (Machine.released_relabel _ _ _ _), names₂, fun e he => ?_,
      ⟨hev.sound, fun e f hf => ?_⟩, fun l e hcarries => ?_⟩
    · obtain ⟨-, hnames⟩ := hkeeps e (hin.contains.2 (Or.inl he))
      refine ⟨hev.contains he, hnames.trans (Function.update_of_ne ?_ _ _)⟩
      rintro rfl
      exact hin.fresh he
    · rw [Machine.frame?_released (Heap.contains_of_frame? hf)] at hf
      exact hm₂.frames e f hf
    · exact ⟨houtlives e (outcomeHolds_of_carries hcarries),
        (Relabellable.CarriesOnly.callResult hr l e hcarries).2⟩
  · unfold Eval.applyClosure
    rw [List.length_map, if_neg hlen, if_neg (by simpa [Lambda.relabel] using hlen)]
    have hlength : (lambda.relabel ψ).params.length = lambda.params.length := List.length_map _
    rw [hlength]
    exact .fail hm _ line

lemma Commutes.apply (hm : m.Suits ψ names) {callee : Value} (hcallee : m.Admits ψ names callee)
    {args : List Value} (hargs : m.Admits ψ names args) (line : Nat) :
    Commutes ψ names (apply policy eval callee args line)
      (apply policy eval (callee.relabel ψ) (args.map (Value.relabel ψ)) (ψ.line line)) m := by
  cases callee with
  | closure id lambda env =>
    obtain ⟨hlive, hfits⟩ := hcallee lambda env .closure
    exact .applyClosure heval hsafe hm ⟨hlive, rfl⟩ hfits hargs line
  | builtin b => exact .builtinCall hm b hargs line
  | array id elements => exact .fail hm (.notAFunction .array) line
  | int _ | bool _ | str _ _ | null => exact .fail hm _ line

/-- A construct commutes with relabelling if its parts do. -/
lemma Commutes.construct (e : Expr) (hm : m.Suits ψ names)
    (henv : Machine.HasScope names m env scope) (hfits : e.Fits ψ scope) :
    Commutes ψ names (construct policy eval e env) (construct policy eval (e.relabel ψ) env) m := by
  cases e with
  | ident id => exact .lookup hm henv hfits
  | int token n => exact .pure hm (fun _ _ hcarries => by cases hcarries) rfl
  | str token value => exact .newString hm value
  | bool token b => exact .pure hm (fun _ _ hcarries => by cases hcarries) rfl
  | unary token op operand =>
    refine (heval operand names env scope m hm henv hfits).bind fun v names₁ m₁ _ hm₁ _ => ?_
    rw [ψ.line_token]
    exact .unary hm₁ op v token.line
  | binary token op left right =>
    refine (heval left names env scope m hm henv hfits.1).bind fun v names₁ m₁ hkeeps hm₁ _ => ?_
    refine (heval right names₁ env scope m₁ hm₁ (hkeeps.hasScope henv) hfits.2).bind
      fun w names₂ m₂ _ hm₂ _ => ?_
    rw [ψ.line_token]
    exact .binary hm₂ op v w token.line
  | cond token condition consequence alternative =>
    obtain ⟨hcondition, hconsequence, halternative⟩ := Expr.fits_cond.1 hfits
    rw [Expr.relabel_cond]
    refine (heval condition names env scope m hm henv hcondition).bind
      fun v names₁ m₁ hkeeps hm₁ _ => ?_
    have htruthy : (Relabellable.relabel ψ v).truthy = v.truthy := v.truthy_mapParts
    simp only [htruthy]
    split
    · have hchosen : ∀ b ∈ some consequence, b.Fits ψ scope := by simpa
      exact .branch heval hm₁ (hkeeps.hasScope henv) hchosen
    · exact .branch heval hm₁ (hkeeps.hasScope henv) halternative
  | function token params body => exact .newClosure hm henv hfits
  | call token callee args =>
    refine (heval callee names env scope m hm henv hfits.1).bind
      fun v names₁ m₁ hkeeps hm₁ hv => ?_
    refine (Commutes.expressions heval hm₁ (hkeeps.hasScope henv) hfits.2).bind
      fun vs names₂ m₂ hkeeps' hm₂ hvs => ?_
    rw [ψ.line_token]
    exact .apply heval hsafe hm₂ (hkeeps'.admits hv) hvs token.line
  | array token elements =>
    exact (Commutes.expressions heval hm henv hfits).bind fun vs names₁ m₁ _ hm₁ hvs =>
      .newArray hm₁ hvs
  | index token base index =>
    refine (heval base names env scope m hm henv hfits.1).bind fun v names₁ m₁ hkeeps hm₁ hv => ?_
    refine (heval index names₁ env scope m₁ hm₁ (hkeeps.hasScope henv) hfits.2).bind
      fun w names₂ m₂ hkeeps' hm₂ _ => ?_
    rw [ψ.line_token]
    exact .index hm₂ (hkeeps'.admits hv) w token.line

end Constructs

/-- Expressions commute with relabelling, to whatever depth they may nest. -/
lemma commuting_expression (policy : ReleasePolicy) (depth : Nat) :
    Commuting ψ (expression policy depth) := by
  induction depth with
  | zero => exact fun e names env scope m hm _ _ => .throw hm fun _ _ h => h.elim
  | succ depth ih =>
    exact fun e names env scope m hm henv hfits =>
      .construct ih (safeEvaluator_expression policy depth) e hm henv hfits

/-- Programs commute with relabelling. -/
lemma Commutes.program (policy : ReleasePolicy) (depth : Nat) (hm : m.Suits ψ names)
    (henv : Machine.HasScope names m env scope) {p : Program} (hfits : p.Fits ψ scope) :
    Commutes ψ names (program policy depth p env) (program policy depth (p.relabel ψ) env) m :=
  .programStatements (commuting_expression policy depth) hm henv hfits
    fun _ _ ⟨_, hv, _⟩ => nomatch hv

end Bhasha.Eval

namespace Bhasha.Machine

variable {ψ : Relabelling} {scope : Set String}

lemma suits_initial (hself : ∀ n ∈ scope, ψ.name n = n) :
    Machine.initial.Suits ψ fun _ => scope := by
  refine ⟨atRest_initial.sound, fun e f hf => ?_⟩
  obtain rfl : f = {} := by
    have hframe := Heap.frame?_allocate Heap.wellFormed_empty none e
    rw [show Machine.initial.heap = (Heap.empty.allocate none).2 from rfl, hframe] at hf
    split at hf
    · exact (Option.some.inj hf).symm
    · simp [Heap.frame?, Heap.empty] at hf
  have hinj : Set.InjOn ψ.name scope := by
    intro n hn k hk heq
    rwa [hself n hn, hself k hk] at heq
  exact ⟨hinj, by simp, by simp, by simp, fun n hn _ _ => hself n hn⟩

/-- A program in a new outermost environment, whose names do not change: running the relabelled
program is relabelling the run. -/
lemma evaluateUnder_relabel (hself : ∀ n ∈ scope, ψ.name n = n) {p : Program}
    (hfits : p.Fits ψ scope) (policy : ReleasePolicy) (depth : Nat) :
    Machine.initial.evaluateUnder policy (p.relabel ψ) Env.global depth =
      ((Machine.initial.evaluateUnder policy p Env.global depth).1.relabel ψ,
        (Machine.initial.evaluateUnder policy p Env.global depth).2.relabel ψ) := by
  have hglobal : HasScope (fun _ => scope) Machine.initial Env.global scope :=
    ⟨atRest_initial.contains_global, rfl⟩
  obtain ⟨heq, -⟩ := Eval.Commutes.program policy depth (suits_initial hself) hglobal hfits
  rw [relabel_initial] at heq
  simp only [evaluateUnder, heq, Answer.ofOutcome_relabel]

/-- The relabelled program ends exactly if the program does. -/
lemma exists_ends_relabel_iff (hself : ∀ n ∈ scope, ψ.name n = n) {p : Program}
    (hfits : p.Fits ψ scope) {policy : ReleasePolicy} :
    (∃ a m, Machine.initial.Ends policy (p.relabel ψ) a m) ↔
      ∃ a m, Machine.initial.Ends policy p a m := by
  have hexhausted : ∀ depth,
      (Machine.initial.evaluateUnder policy (p.relabel ψ) Env.global depth).1 = .exhausted ↔
        (Machine.initial.evaluateUnder policy p Env.global depth).1 = .exhausted := by
    intro depth
    rw [evaluateUnder_relabel hself hfits, Answer.relabel_eq_exhausted]
  constructor
  · rintro ⟨a, m, depth, heq, hne⟩
    refine ⟨_, _, depth, rfl, fun hx => hne ?_⟩
    have ha := (hexhausted depth).2 hx
    rwa [heq] at ha
  · rintro ⟨a, m, depth, heq, hne⟩
    refine ⟨_, _, depth, rfl, fun hx => hne ?_⟩
    have ha := (hexhausted depth).1 hx
    rwa [heq] at ha

/-- The relabelled program ends as the program does. -/
lemma Ends.eq_relabel (hself : ∀ n ∈ scope, ψ.name n = n) {p : Program} (hfits : p.Fits ψ scope)
    {policy : ReleasePolicy} {a a' : Answer} {m m' : Machine}
    (h : Machine.initial.Ends policy (p.relabel ψ) a m)
    (h' : Machine.initial.Ends policy p a' m') : a = a'.relabel ψ ∧ m = m'.relabel ψ := by
  obtain ⟨depth, heq, hne⟩ := h'
  refine h.unique ⟨depth, ?_, fun hx => hne (Answer.relabel_eq_exhausted.1 hx)⟩
  rw [evaluateUnder_relabel hself hfits, heq]

end Bhasha.Machine
