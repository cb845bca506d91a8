import Bhasha.Proofs.Machine.Matching

/-!
Evaluations in step with each other.

Two evaluations on machines that mirror each other are in step if they end in the same way, up to
a renaming of handles and the setting of the second machine, and leave machines behind that mirror
each other. This is proved for each construct from the simulation of its parts, and then for all
expressions by induction on the depth to which they may nest. The two runs may be under any two
policies: nothing is assumed about when frames are given back but that each run by itself is safe.
-/

namespace Bhasha.Eval

variable {α β : Type} [Transferable α] [Transferable β] {κ : Setting} {π : Renaming}
  {m m' : Machine}

/-- On two machines, two evaluations end alike and leave machines that mirror each other. -/
def Simulates (κ : Setting) (π : Renaming) (x x' : Eval α) (m m' : Machine) : Prop :=
  ∃ ρ, π ≤ ρ ∧ (x.outcome m).2.Mirrors κ ρ (x'.outcome m').2 ∧
    ρ.Transfers κ.shift (x.outcome m).1 (x'.outcome m').1

lemma Simulates.pure (hm : m.Mirrors κ π m') {a a' : α} (ha : π.Transfers κ.shift a a') :
    Simulates κ π (pure a) (pure a') m m' :=
  ⟨π, le_rfl, hm, ha.ok⟩

lemma Simulates.fail (hm : m.Mirrors κ π m') (cause : Cause) (line : Nat) :
    Simulates κ π (fail cause line : Eval α) (fail cause line) m m' :=
  ⟨π, le_rfl, hm, fun _ he => he.elim, rfl⟩

lemma Simulates.bind {x x' : Eval α} {f f' : α → Eval β} (hx : Simulates κ π x x' m m')
    (hf : ∀ ρ a a' m₁ m₁', π ≤ ρ → m₁.Mirrors κ ρ m₁' → ρ.Transfers κ.shift a a' →
      Simulates κ ρ (f a) (f' a') m₁ m₁') :
    Simulates κ π (x >>= f) (x' >>= f') m m' := by
  obtain ⟨ρ, hle, hm₁, hr⟩ := hx
  rcases hout : x.outcome m with ⟨i | a, m₁⟩
  · rw [hout] at hm₁ hr
    have hout' : x'.outcome m' =
        (.error (Transferable.transfer κ.shift ρ.map i), (x'.outcome m').2) := Prod.ext hr.2 rfl
    unfold Simulates
    rw [outcome_bind_of_error hout, outcome_bind_of_error hout']
    exact ⟨ρ, hle, hm₁, hr.1, rfl⟩
  · rw [hout] at hm₁ hr
    have hout' : x'.outcome m' = (.ok (Transferable.transfer κ.shift ρ.map a), (x'.outcome m').2) :=
      Prod.ext hr.2 rfl
    unfold Simulates
    rw [outcome_bind_of_ok hout, outcome_bind_of_ok hout']
    obtain ⟨ρ', hle', hm₂, hr'⟩ := hf ρ a _ m₁ _ hle hm₁ ⟨hr.1, rfl⟩
    exact ⟨ρ', hle.trans hle', hm₂, hr'⟩

lemma Simulates.check (hm : m.Mirrors κ π m') {r r' : Except Cause α}
    (hr : π.Transfers κ.shift r r') (line : Nat) :
    Simulates κ π (check line r) (check line r') m m' := by
  obtain ⟨hdom, rfl⟩ := hr
  cases r with
  | error cause => exact .fail hm cause line
  | ok a => exact .pure hm ⟨hdom, rfl⟩

/-- A new object has the next number on each machine. -/
lemma Simulates.of_nextObject (hm : m.Mirrors κ π m') {x x' : Eval Value} {v v' : Value}
    (hx : x.outcome m = (.ok v, { m with nextObject := m.nextObject + 1 }))
    (hx' : x'.outcome m' = (.ok v', { m' with nextObject := m'.nextObject + 1 }))
    (hv : π.Transfers κ.shift v v') : Simulates κ π x x' m m' := by
  unfold Simulates
  rw [hx, hx']
  refine ⟨π, le_rfl, hm.of_heap_eq rfl rfl ?_ hm.printed, hv.ok⟩
  rw [hm.nextObject, Nat.add_right_comm]

lemma Simulates.newString (hm : m.Mirrors κ π m') (text : String) :
    Simulates κ π (newString text) (newString text) m m' := by
  refine .of_nextObject hm rfl rfl ⟨fun _ he => (nomatch he), ?_⟩
  rw [hm.nextObject]
  rfl

lemma Simulates.newArray (hm : m.Mirrors κ π m') {vs vs' : List Value}
    (hvs : π.Transfers κ.shift vs vs') : Simulates κ π (newArray vs) (newArray vs') m m' := by
  refine .of_nextObject hm rfl rfl ?_
  rw [hm.nextObject]
  exact hvs.array m.nextObject

lemma Simulates.newClosure (hm : m.Mirrors κ π m') (lambda : Lambda) {env env' : Env}
    (henv : π.Transfers κ.shift env env') :
    Simulates κ π (newClosure lambda env) (newClosure lambda env') m m' := by
  refine .of_nextObject hm rfl rfl ?_
  rw [hm.nextObject]
  exact henv.closure m.nextObject lambda

lemma Simulates.define (hm : m.Mirrors κ π m') {env env' : Env}
    (henv : π.Transfers κ.shift env env') (name : String) {v v' : Value}
    (hv : π.Transfers κ.shift v v') :
    Simulates κ π (define env name v) (define env' name v') m m' :=
  ⟨π, le_rfl, hm.define henv name hv, fun _ he => he.elim, rfl⟩

lemma Simulates.lookup (hm : m.Mirrors κ π m') {env env' : Env}
    (henv : π.Transfers κ.shift env env') (id : Identifier) :
    Simulates κ π (lookup env id) (lookup env' id) m m' := by
  obtain rfl : env' = π.map env := henv.2
  have hget := hm.transfers_get? (henv.1 env rfl) id.name
  unfold Simulates
  rw [outcome_lookup, outcome_lookup, hget.2]
  refine ⟨π, le_rfl, hm, ?_⟩
  rcases hv : m.heap.get? env id.name with _ | v
  · rcases Builtin.ofName? id.name with _ | b
    · exact ⟨fun _ he => he.elim, rfl⟩
    · exact (Renaming.transfers_of_plain (.builtin b)).ok
  · rw [hv] at hget
    exact Renaming.Transfers.ok ⟨fun e he => hget.1 e ⟨v, rfl, he⟩, rfl⟩

/-! ## Operators -/

lemma Simulates.binary (hm : m.Mirrors κ π m') (op : BinaryOp) {v v' w w' : Value}
    (hv : π.Transfers κ.shift v v') (hw : π.Transfers κ.shift w w') (line : Nat) :
    Simulates κ π (binary op v w line) (binary op v' w' line) m m' := by
  obtain rfl : v' = v.transfer κ.shift π.map := hv.2
  obtain rfl : w' = w.transfer κ.shift π.map := hw.2
  by_cases hint : v.type = .int ∧ w.type = .int
  · obtain ⟨a, rfl⟩ := Value.type_eq_int.1 hint.1
    obtain ⟨b, rfl⟩ := Value.type_eq_int.1 hint.2
    exact .check hm (Renaming.transfers_of_ok_plain fun _ => plain_onIntegers) line
  by_cases hstr : v.type = .str ∧ w.type = .str
  · obtain ⟨i, s, rfl⟩ := Value.type_eq_str.1 hstr.1
    obtain ⟨j, t, rfl⟩ := Value.type_eq_str.1 hstr.2
    have hjoin : π.Transfers κ.shift (op.onStrings s t) (op.onStrings s t) := by
      rcases op.onStrings s t with cause | text
      · exact ⟨fun _ he => he.elim, rfl⟩
      · exact ⟨fun _ he => he.elim, rfl⟩
    refine (Simulates.check hm hjoin line).bind fun ρ text text' m₁ m₁' _ hm₁ htext => ?_
    obtain rfl : text' = text := htext.2
    exact .newString hm₁ text'
  rw [binary_of_type_ne hint hstr, binary_of_type_ne (by simpa using hint) (by simpa using hstr),
    Value.type_mapParts, Value.type_mapParts, onIdentity_mapParts fun _ _ => Nat.add_right_cancel]
  split
  · exact .check hm (Renaming.transfers_of_ok_plain fun _ => plain_onIdentity) line
  · exact .fail hm _ line

lemma Simulates.unary (hm : m.Mirrors κ π m') (op : UnaryOp) {v v' : Value}
    (hv : π.Transfers κ.shift v v') (line : Nat) :
    Simulates κ π (unary op v line) (unary op v' line) m m' := by
  obtain rfl : v' = v.transfer κ.shift π.map := hv.2
  unfold Eval.unary
  rw [onValue_mapParts]
  exact .check hm (Renaming.transfers_of_ok_plain fun _ => plain_onValue) line

lemma Simulates.index (hm : m.Mirrors κ π m') {v v' w w' : Value} (hv : π.Transfers κ.shift v v')
    (hw : π.Transfers κ.shift w w') (line : Nat) :
    Simulates κ π (Eval.index v w line) (Eval.index v' w' line) m m' := by
  obtain rfl : v' = v.transfer κ.shift π.map := hv.2
  obtain rfl : w' = w.transfer κ.shift π.map := hw.2
  unfold Eval.index
  rw [elementAt_mapParts]
  exact .check hm (Renaming.transfers_map fun u hu e he => hv.1 e (holds_of_elementAt hu he)) line

/-! ## Builtins -/

lemma transfers_elements (b : Builtin) {args args' : List Value}
    (hargs : π.Transfers κ.shift args args') :
    π.Transfers κ.shift (b.elements args) (b.elements args') := by
  obtain rfl : args' = args.map (Value.transfer κ.shift π.map) := hargs.2
  rw [Builtin.elements_mapParts]
  refine Renaming.transfers_map fun xs hxs => ?_
  rintro e ⟨u, hu, he⟩
  obtain ⟨id, rfl⟩ := Builtin.eq_of_elements_eq_ok hxs
  exact hargs.1 e ⟨_, List.mem_singleton_self _, .element hu he⟩

lemma transfers_extended (b : Builtin) {args args' : List Value}
    (hargs : π.Transfers κ.shift args args') :
    π.Transfers κ.shift (b.extended args) (b.extended args') := by
  obtain rfl : args' = args.map (Value.transfer κ.shift π.map) := hargs.2
  rw [Builtin.extended_mapParts]
  refine Renaming.transfers_map fun elements helements => ?_
  rintro e ⟨u, hu, he⟩
  obtain ⟨id, xs, v, rfl, rfl⟩ := Builtin.eq_of_extended_eq_ok helements
  rcases List.mem_append.1 hu with hu | hu
  · exact hargs.1 e ⟨_, List.mem_cons_self, .element hu he⟩
  · exact hargs.1 e ⟨u, by simp_all, he⟩

lemma transfers_length {args args' : List Value} (hargs : π.Transfers κ.shift args args') :
    π.Transfers κ.shift (Builtin.length args) (Builtin.length args') := by
  obtain rfl : args' = args.map (Value.transfer κ.shift π.map) := hargs.2
  rw [Builtin.length_mapParts]
  refine Renaming.transfers_of_ok_plain fun v hv => ?_
  obtain ⟨n, rfl⟩ := Builtin.eq_of_length_eq_ok hv
  exact .int n

lemma Simulates.printAll (hm : m.Mirrors κ π m') {args args' : List Value}
    (hargs : π.Transfers κ.shift args args') :
    Simulates κ π (args.forM print) (args'.forM print) m m' := by
  obtain ⟨hdom, rfl⟩ := hargs
  induction args generalizing π m m' with
  | nil => exact .pure hm ⟨fun _ he => he.elim, rfl⟩
  | cons v vs ih =>
    have hprint : Simulates κ π (print v) (print (v.transfer κ.shift π.map)) m m' := by
      refine ⟨π, le_rfl, hm.of_heap_eq rfl rfl hm.nextObject ?_, fun _ he => he.elim, rfl⟩
      simp [hm.printed, Value.render_transfer]
    have hvs : π.Transfers κ.shift vs (vs.map (Value.transfer κ.shift π.map)) :=
      ⟨fun e ⟨w, hw, he⟩ => hdom e ⟨w, by simp [hw], he⟩, rfl⟩
    refine hprint.bind fun ρ _ _ m₁ m₁' hle hm₁ _ => ?_
    have hvs' := hvs.mono hle
    rw [hvs'.2]
    exact ih hm₁ hvs'.1

lemma Simulates.builtinBody (hm : m.Mirrors κ π m') (b : Builtin) {args args' : List Value}
    (hargs : π.Transfers κ.shift args args') (line : Nat) :
    Simulates κ π (b.body args line) (b.body args' line) m m' := by
  have helements : Simulates κ π (Eval.check line (b.elements args))
      (Eval.check line (b.elements args')) m m' := .check hm (transfers_elements b hargs) line
  -- an element that may be missing is the same one on both sides
  have hpick : ∀ pick : List Value → Option Value,
      (∀ xs v, pick xs = some v → v ∈ xs) →
      (∀ (g : Value → Value) xs, pick (xs.map g) = (pick xs).map g) →
      Simulates κ π (do return (pick (← Eval.check line (b.elements args))).getD .null)
        (do return (pick (← Eval.check line (b.elements args'))).getD .null) m m' := by
    intro pick hmem hmap
    refine helements.bind fun ρ xs xs' m₁ m₁' _ hm₁ hxs => .pure hm₁ ?_
    refine Renaming.Transfers.getD ⟨?_, ?_⟩
    · rintro e ⟨v, hv, he⟩
      exact hxs.1 e ⟨v, hmem xs v hv, he⟩
    · rw [hxs.2]
      exact hmap _ xs
  cases b with
  | len => exact .check hm (transfers_length hargs) line
  | first | head =>
    exact hpick List.head? (fun _ _ => List.mem_of_head?) fun _ _ => List.head?_map
  | last => exact hpick List.getLast? (fun _ _ => List.mem_of_getLast?) fun _ _ => List.getLast?_map
  | rest | tail =>
    refine helements.bind fun ρ xs xs' m₁ m₁' _ hm₁ hxs => ?_
    obtain rfl : xs' = xs.map (Value.transfer κ.shift ρ.map) := hxs.2
    cases xs with
    | nil => exact .pure hm₁ (Renaming.transfers_of_plain .null)
    | cons v others =>
      refine .newArray hm₁ ⟨?_, rfl⟩
      rintro e ⟨w, hw, he⟩
      exact hxs.1 e ⟨w, by simp [hw], he⟩
  | push | append =>
    exact (Simulates.check hm (transfers_extended _ hargs) line).bind
      fun ρ xs xs' m₁ m₁' _ hm₁ hxs => .newArray hm₁ hxs
  | print | puts =>
    exact (Simulates.printAll hm hargs).bind
      fun ρ _ _ m₁ m₁' _ hm₁ _ => .pure hm₁ (Renaming.transfers_of_plain .null)

lemma Simulates.builtinCall (hm : m.Mirrors κ π m') (b : Builtin) {args args' : List Value}
    (hargs : π.Transfers κ.shift args args') (line : Nat) :
    Simulates κ π (b.call args line) (b.call args' line) m m' := by
  have hlen : args'.length = args.length := by
    rw [hargs.2]
    exact List.length_map _
  unfold Builtin.call
  rw [hlen]
  split
  · exact .builtinBody hm b hargs line
  · exact .fail hm _ line

/-! ## Constructs -/

/-- Two evaluators of expressions that keep step on all machines that mirror each other. -/
def InStep (κ : Setting) (eval eval' : Expr → Env → Eval Value) : Prop :=
  ∀ e π env env' m m', m.Mirrors κ π m' → π.Transfers κ.shift env env' →
    Simulates κ π (eval e env) (eval' e env') m m'

section Constructs

variable {env env' : Env} {eval eval' : Expr → Env → Eval Value} (heval : InStep κ eval eval')
include heval

lemma Simulates.statement (hm : m.Mirrors κ π m') (henv : π.Transfers κ.shift env env') (s : Stmt) :
    Simulates κ π (statement eval s env) (statement eval' s env') m m' := by
  cases s with
  | bind token id value =>
    refine (heval value π env env' m m' hm henv).bind fun ρ v v' m₁ m₁' hle hm₁ hv => ?_
    exact (Simulates.define hm₁ (henv.mono hle) id.name hv).bind
      fun ρ _ _ m₂ m₂' _ hm₂ _ => .pure hm₂ Renaming.transfers_none
  | ret token value =>
    exact (heval value π env env' m m' hm henv).bind fun ρ v v' m₁ m₁' _ hm₁ hv =>
      ⟨ρ, le_rfl, hm₁, hv.1, by rw [hv.2]; rfl⟩
  | expr token value =>
    exact (heval value π env env' m m' hm henv).bind fun ρ v v' m₁ m₁' _ hm₁ hv =>
      .pure hm₁ hv.some

lemma Simulates.statements (hm : m.Mirrors κ π m') (henv : π.Transfers κ.shift env env')
    (ss : List Stmt) {result result' : Option Value}
    (hresult : π.Transfers κ.shift result result') :
    Simulates κ π (statements eval env result ss) (statements eval' env' result' ss) m m' := by
  induction ss generalizing π result result' m m' with
  | nil => exact .pure hm hresult
  | cons s rest ih =>
    exact (Simulates.statement heval hm henv s).bind fun ρ r r' m₁ m₁' hle hm₁ hr =>
      ih hm₁ (henv.mono hle) hr

lemma Simulates.block (hm : m.Mirrors κ π m') (henv : π.Transfers κ.shift env env') (b : Block) :
    Simulates κ π (block eval b env) (block eval' b env') m m' :=
  .statements heval hm henv b.statements Renaming.transfers_none

lemma Simulates.expressions (hm : m.Mirrors κ π m') (henv : π.Transfers κ.shift env env')
    (es : List Expr) :
    Simulates κ π (expressions eval env es) (expressions eval' env' es) m m' := by
  induction es generalizing π m m' with
  | nil => exact .pure hm ⟨fun _ ⟨_, hv, _⟩ => (nomatch hv), rfl⟩
  | cons e rest ih =>
    refine (heval e π env env' m m' hm henv).bind fun ρ v v' m₁ m₁' hle hm₁ hv => ?_
    exact (ih hm₁ (henv.mono hle)).bind fun ρ vs vs' m₂ m₂' hle' hm₂ hvs =>
      .pure hm₂ ((hv.mono hle').cons hvs)

lemma Simulates.branch (hm : m.Mirrors κ π m') (henv : π.Transfers κ.shift env env')
    (b? : Option Block) : Simulates κ π (branch eval env b?) (branch eval' env' b?) m m' := by
  cases b? with
  | none => exact .pure hm (Renaming.transfers_of_plain .null)
  | some b =>
    exact (Simulates.block heval hm henv b).bind fun ρ v v' m₁ m₁' _ hm₁ hv => .pure hm₁ hv.getD

omit heval in
lemma transfers_finished {r r' : Except Interrupt (Option Value)} (hr : π.Transfers κ.shift r r') :
    π.Transfers κ.shift (finished r) (finished r') := by
  obtain ⟨hdom, rfl⟩ := hr
  rcases r with (v | fault | _) | value
  · have hv : π.Transfers κ.shift v (v.transfer κ.shift π.map) := ⟨hdom, rfl⟩
    exact hv.some.ok
  · exact ⟨hdom, rfl⟩
  · exact ⟨hdom, rfl⟩
  · exact ⟨hdom, rfl⟩

lemma Simulates.programStatements (hm : m.Mirrors κ π m') (henv : π.Transfers κ.shift env env')
    (ss : List Stmt) {result result' : Option Value}
    (hresult : π.Transfers κ.shift result result') :
    Simulates κ π (programStatements eval env result ss) (programStatements eval' env' result' ss)
      m m' := by
  obtain ⟨ρ, hle, hm₁, hr⟩ := Simulates.statements heval hm henv ss hresult
  rw [Simulates, outcome_programStatements, outcome_programStatements]
  exact ⟨ρ, hle, hm₁, transfers_finished hr⟩

/-! ## Calls -/

omit heval in
lemma transfers_callResult {r r' : Except Interrupt (Option Value)}
    (hr : π.Transfers κ.shift r r') : π.Transfers κ.shift (callResult r) (callResult r') := by
  obtain ⟨hdom, rfl⟩ := hr
  rcases r with (v | fault | _) | value
  · exact ⟨hdom, rfl⟩
  · exact ⟨fun _ he => he.elim, rfl⟩
  · exact ⟨fun _ he => he.elim, rfl⟩
  · have hvalue : π.Transfers κ.shift value (Transferable.transfer κ.shift π.map value) :=
      ⟨hdom, rfl⟩
    exact hvalue.getD.ok

omit heval in
lemma holds_of_outcomeHolds {r : Except Interrupt Value} {e : Env} :
    Transferable.Holds r e ↔ OutcomeHolds Value.Holds r e := by
  cases r <;> exact Iff.rfl

omit heval in
lemma outcomeHolds_transfer {r : Except Interrupt Value} {e : Env} {k : Nat} {σ : Env → Env}
    (he : OutcomeHolds Value.Holds r e) :
    OutcomeHolds Value.Holds (Transferable.transfer k σ r) (σ e) := by
  rcases r with (v | fault | _) | v
  · exact Value.Holds.transfer he
  · exact he
  · exact he
  · exact Value.Holds.transfer he

variable {policy policy' : ReleasePolicy} (hsafe : SafeEvaluator policy eval)
  (hsafe' : SafeEvaluator policy' eval')
include hsafe hsafe'

/-- Calls keep step: when they end, the renaming is cut down to the frames that both machines have
kept, and these are all that the machines had before and all that the results reach. -/
lemma Simulates.applyClosure (hm : m.Mirrors κ π m') (lambda : Lambda)
    (henv : π.Transfers κ.shift env env') {args args' : List Value}
    (hargs : π.Transfers κ.shift args args') (line : Nat) :
    Simulates κ π (applyClosure policy eval lambda env args line)
      (applyClosure policy' eval' lambda env' args' line) m m' := by
  have hlength : args'.length = args.length := by
    rw [hargs.2]
    exact List.length_map _
  by_cases hlen : lambda.params.length = args.length
  · -- each call by itself keeps what was there and what it hands on
    have hlive : Safe policy env Value.Holds
        (Eval.applyClosure policy eval lambda env args line) m :=
      .applyClosure hsafe hm.sound lambda (hm.contains (henv.1 env rfl)) line
        fun e he => hm.contains (hargs.1 e he)
    have hlive' : Safe policy' env' Value.Holds
        (Eval.applyClosure policy' eval' lambda env' args' line) m' := by
      refine .applyClosure hsafe' hm.sound' lambda ?_ line fun e he => ?_
      · rw [henv.2]
        exact hm.contains_map (henv.1 env rfl)
      · obtain ⟨v', hv', he⟩ := he
        rw [hargs.2] at hv'
        obtain ⟨v, hv, rfl⟩ := List.mem_map.1 hv'
        obtain ⟨d, hd, rfl⟩ := Value.exists_holds_of_holds_transfer he
        exact hm.contains_map (hargs.1 d ⟨v, hv, hd⟩)
    -- the bodies keep step
    obtain ⟨ρ, hle, hentered, hscope⟩ := hm.entered henv
    have hbound := hentered.bound hscope lambda.params (hargs.mono hle)
    obtain ⟨ρ', hle', hbody, hr⟩ := Simulates.block heval hbound hscope lambda.body
    have hkeep := hle.trans hle'
    rcases hout : (Eval.block eval lambda.body (entered env m).1).outcome _ with ⟨r, m₂⟩
    rcases hout' : (Eval.block eval' lambda.body (entered env' m').1).outcome _ with ⟨r', m₂'⟩
    rw [hout, hout'] at hbody hr
    obtain ⟨hdom, hresult⟩ := transfers_callResult hr
    -- what both have kept when the frames were given back
    have hcall := outcome_applyClosure policy eval hlen env line m (outcome_enter _ _ _ _) hout
    have hcall' := outcome_applyClosure policy' eval' (hlen.trans hlength.symm) env' line m'
      (outcome_enter _ _ _ _) hout'
    rw [Safe, hcall] at hlive
    rw [Safe, hcall'] at hlive'
    obtain ⟨hev, hheld⟩ := hlive
    obtain ⟨hev', hheld'⟩ := hlive'
    have hmirrors := hbody.restrict hev.sound hev'.sound (fun _ => Machine.frame?_released)
      (fun _ => Machine.frame?_released)
      (fun o ho => hev'.contains (Heap.contains_of_frame? (hm.outer o ho).1))
      (by simpa using hbody.nextObject) (by simpa using hbody.printed)
    unfold Simulates
    rw [hcall, hcall']
    refine ⟨_, ?_, hmirrors, ?_, hresult⟩
    · refine ⟨fun e he => ⟨hkeep.1 e he, hev.contains (hm.contains he), ?_⟩, hkeep.2⟩
      rw [hkeep.2 e he]
      exact hev'.contains (hm.contains_map he)
    · intro e he
      have hold := holds_of_outcomeHolds.1 he
      refine ⟨hdom e he, hheld e hold, hheld' _ ?_⟩
      rw [hresult]
      exact outcomeHolds_transfer hold
  · unfold Eval.applyClosure
    rw [hlength, if_neg hlen, if_neg hlen]
    exact .fail hm _ line

lemma Simulates.apply (hm : m.Mirrors κ π m') {callee callee' : Value}
    (hcallee : π.Transfers κ.shift callee callee') {args args' : List Value}
    (hargs : π.Transfers κ.shift args args') (line : Nat) :
    Simulates κ π (apply policy eval callee args line) (apply policy' eval' callee' args' line)
      m m' := by
  obtain rfl : callee' = callee.transfer κ.shift π.map := hcallee.2
  cases callee with
  | closure id lambda env =>
    refine .applyClosure heval hsafe hsafe' hm lambda ⟨?_, rfl⟩ hargs line
    rintro e rfl
    exact hcallee.1 e .closure
  | builtin b => exact .builtinCall hm b hargs line
  | array id elements => exact .fail hm (.notAFunction .array) line
  | int _ | bool _ | str _ _ | null => exact .fail hm _ line

/-- A construct keeps step if its parts do. -/
lemma Simulates.construct (e : Expr) (hm : m.Mirrors κ π m') (henv : π.Transfers κ.shift env env') :
    Simulates κ π (construct policy eval e env) (construct policy' eval' e env') m m' := by
  cases e with
  | ident id => exact .lookup hm henv id
  | int token n => exact .pure hm (Renaming.transfers_of_plain (.int n))
  | str token value => exact .newString hm value
  | bool token b => exact .pure hm (Renaming.transfers_of_plain (.bool b))
  | unary token op operand =>
    exact (heval operand π env env' m m' hm henv).bind fun ρ v v' m₁ m₁' _ hm₁ hv =>
      .unary hm₁ op hv token.line
  | binary token op left right =>
    refine (heval left π env env' m m' hm henv).bind fun ρ v v' m₁ m₁' hle hm₁ hv => ?_
    exact (heval right ρ env env' m₁ m₁' hm₁ (henv.mono hle)).bind
      fun ρ' w w' m₂ m₂' hle' hm₂ hw => .binary hm₂ op (hv.mono hle') hw token.line
  | cond token condition consequence alternative =>
    refine (heval condition π env env' m m' hm henv).bind fun ρ v v' m₁ m₁' hle hm₁ hv => ?_
    have htruthy : v'.truthy = v.truthy := by
      rw [hv.2]
      exact Value.truthy_mapParts v
    simp only [htruthy]
    exact .branch heval hm₁ (henv.mono hle) _
  | function token params body => exact .newClosure hm ⟨token, params, body⟩ henv
  | call token callee args =>
    refine (heval callee π env env' m m' hm henv).bind fun ρ v v' m₁ m₁' hle hm₁ hv => ?_
    exact (Simulates.expressions heval hm₁ (henv.mono hle) args).bind
      fun ρ' vs vs' m₂ m₂' hle' hm₂ hvs =>
        .apply heval hsafe hsafe' hm₂ (hv.mono hle') hvs token.line
  | array token elements =>
    exact (Simulates.expressions heval hm henv elements).bind
      fun ρ vs vs' m₁ m₁' _ hm₁ hvs => .newArray hm₁ hvs
  | index token base index =>
    refine (heval base π env env' m m' hm henv).bind fun ρ v v' m₁ m₁' hle hm₁ hv => ?_
    exact (heval index ρ env env' m₁ m₁' hm₁ (henv.mono hle)).bind
      fun ρ' w w' m₂ m₂' hle' hm₂ hw => .index hm₂ (hv.mono hle') hw token.line

end Constructs

/-- Expressions evaluated to the same depth keep step, under any two policies. -/
lemma inStep_expression (policy policy' : ReleasePolicy) (depth : Nat) :
    InStep κ (expression policy depth) (expression policy' depth) := by
  induction depth with
  | zero => exact fun e π env env' m m' hm _ => ⟨π, le_rfl, hm, fun _ he => he.elim, rfl⟩
  | succ depth ih =>
    exact fun e π env env' m m' hm henv =>
      .construct ih (safeEvaluator_expression policy depth)
        (safeEvaluator_expression policy' depth) e hm henv

/-- Programs evaluated to the same depth keep step, under any two policies. -/
lemma Simulates.program (policy policy' : ReleasePolicy) (depth : Nat) (p : Program)
    (hm : m.Mirrors κ π m') {env env' : Env} (henv : π.Transfers κ.shift env env') :
    Simulates κ π (program policy depth p env) (program policy' depth p env') m m' :=
  .programStatements (inStep_expression policy policy' depth) hm henv p.statements
    Renaming.transfers_none

end Bhasha.Eval
