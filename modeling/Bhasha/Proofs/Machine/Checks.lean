import Bhasha.Proofs.Heap.Marks
import Bhasha.Proofs.Machine.Writes
import Bhasha.Proofs.Token.Tiling

/-!
No check would ever fail.

In a few places the program takes for granted what it does not look at: that a free slot exists,
that a slot has a mark, that the frames noted before a call are still noted at its end, that an
array has an element at a position inside of it, and that a string has no more line feeds than were
counted up to its end. Here scanner and evaluator are written down once more with a check in each of
these places. A check that fails in the evaluator is a fault, and nothing takes it back: it is what
the program ends with. Since any fault will do, an evaluation that comes to the same with all of
them has failed no check.

Positions and lines need nothing but what stands around the check. Slots and noted frames are a
matter of whole runs: the list of free slots has to be right after everything that a machine was
used for, and the frames of a call have to be gone at its end however it ends.
-/

namespace Bhasha

/-! ## Lines of strings -/

lemma IsNumeral.lineFeeds_eq_zero {w : List Char} (hw : IsNumeral w) : lineFeeds w = 0 := by
  obtain ⟨c, ds, rfl, hc, hds⟩ := hw
  have hpart : ∀ d : Char, d.isDigit → isWordPart d := fun d hd => by
    rw [isWordPart, hd, Bool.or_true]
  exact lineFeeds_eq_zero_of_isWordPart
    (List.forall_mem_cons.2 ⟨hpart c hc, fun d hd => hpart d (hds d hd)⟩)

/-- Apart from strings and blanks nothing has line feeds. -/
lemma Rule.lineFeeds_eq_zero {cs : List Char} {k : Kind} (h : Rule cs k) (hstr : k ≠ .str)
    (hblank : k ≠ .blank) : lineFeeds cs = 0 := by
  cases h with
  | word hw => exact hw.lineFeeds_eq_zero
  | numeral hw => exact hw.lineFeeds_eq_zero
  | unclosed | closed => exact absurd rfl hstr
  | sign => cases k <;> rfl
  | blanks => exact absurd rfl hblank

/-- The line feeds that are counted with a lexeme. -/
def Lexeme.counted (l : Lexeme) : Nat :=
  if l.kind = .str then lineFeeds l.text else 0

/-- Of the lexemes that the scanner cuts only strings have line feeds, so all of them are
counted. -/
lemma Lexeme.counted_first {c : Char} (hc : isBlank c = false) (cs : List Char) :
    (first c cs).counted = lineFeeds (first c cs).text := by
  unfold counted
  split
  · rfl
  · rename_i hstr
    rcases rule_first c cs with hrule | hillegal
    · exact (hrule.lineFeeds_eq_zero hstr ((begins_first hc cs).kind_ne hc).2).symm
    · rw [hillegal]
      refine (List.count_eq_zero.2 fun hmem => ?_).symm
      obtain rfl := List.mem_singleton.1 hmem
      cases hc

namespace Scanner

/-- The line on which a string starts that has a number of line feeds and ends on a given line; none
if that is not a line. -/
def startLine? (line feeds : Nat) : Option Nat :=
  if feeds + 1 ≤ line then some (line - feeds) else none

/-- The next token and the scanner behind it, with lines counted as they go by: the line feeds of a
string are counted with the string, and taken off again to find the line where it starts. -/
def nextToken? (s : Scanner) : Option (Token × Scanner) :=
  let s := s.skipBlanks
  match s.rest with
  | [] => some (⟨.eof, "", s.line⟩, s)
  | c :: cs => do
    let l := Lexeme.first c cs
    let behind := { s with rest := (c :: cs).drop l.text.length, line := s.line + l.counted }
    let line ← startLine? behind.line l.counted
    return (⟨l.kind, l.literal, line⟩, behind)

lemma nextToken?_eq {s : Scanner} (hs : 1 ≤ s.line) : s.nextToken? = some s.nextToken := by
  have hline : 1 ≤ s.skipBlanks.line := hs.trans (Nat.le_add_right _ _)
  unfold nextToken? nextToken
  dsimp only
  rcases hrest : s.skipBlanks.rest with _ | ⟨c, cs⟩
  · rfl
  · have hc : isBlank c = false := by
      have hhead := List.head?_dropWhile_not isBlank s.rest
      rw [show s.rest.dropWhile isBlank = c :: cs from hrest] at hhead
      simpa using hhead
    have hstart : ∀ feeds, startLine? (s.skipBlanks.line + feeds) feeds =
        some s.skipBlanks.line := by
      intro feeds
      rw [startLine?, if_pos (by omega), Nat.add_sub_cancel]
    dsimp only
    rw [Lexeme.counted_first hc, hstart]
    rfl

/-- Lines count from one, however many tokens have been read. -/
lemma one_le_line_iterate (text : String) (n : Nat) :
    1 ≤ ((fun s => s.nextToken.2)^[n] (ofString text)).line := by
  induction n with
  | zero => exact Nat.le_refl 1
  | succ n ih =>
    rw [Function.iterate_succ_apply']
    exact (ih.trans (line_le_line_nextToken _)).trans (line_nextToken_le_line _)

end Scanner

/-! ## The evaluator with checks -/

/-- The element of an array at an index. Nothing is known of it if there is none at a position
inside the array. -/
def Value.elementAt? : Value → Value → Option (Except Cause Value)
  | .array _ elements, .int index =>
    match Number.position? index elements.length with
    | some i => elements[i]?.map .ok
    | none => some (.ok .null)
  | base, index => some (.error (.indexNotSupported base.type index.type))

lemma Number.lt_of_position? {n : Int64} {length i : Nat}
    (h : Number.position? n length = some i) : i < length := by
  unfold Number.position? at h
  split at h
  · obtain rfl := Option.some.inj h
    omega
  · cases h

lemma Value.elementAt?_eq (base index : Value) :
    base.elementAt? index = some (base.elementAt index) := by
  cases base with
  | array id elements =>
    cases index with
    | int n =>
      unfold Value.elementAt? Value.elementAt
      dsimp only
      rcases hposition : Number.position? n elements.length with _ | i
      · rfl
      · have hlt := Number.lt_of_position? hposition
        simp [hlt]
    | bool _ | str _ _ | array _ _ | closure _ _ _ | builtin _ | null => rfl
  | int _ | bool _ | str _ _ | closure _ _ _ | builtin _ | null => rfl

namespace Checked

open Eval (attempt block callResult expressions fail)

section

variable (crash : Fault)

/-- What a check lets through, or the fault if it fails. -/
def demand {α : Type} : Option α → Eval α
  | some a => pure a
  | none => throw (.failed crash)

/-- A new environment, in a slot that exists. -/
def newEnv (parent : Option Env) : Eval Env := do
  let (env, heap) ← demand crash ((← get).heap.allocate? parent)
  modify fun m => { m with heap }
  return env

/-- The environment of a call. -/
def enter (params : List Identifier) (args : List Value) (env : Env) : Eval Env := do
  let scope ← newEnv crash (some env)
  modify fun m => { m with callFrames := m.callFrames.push scope }
  (params.zip args).forM fun (param, arg) => Eval.define scope param.name arg
  return scope

/-- Give back the frames of a call. Those that were noted before it have to be there still, and
first. -/
def releaseCallFrames (before : Array Env) (result : Value) : Eval Unit := do
  let noted := (← get).callFrames
  if before.size ≤ noted.size ∧ noted.toList.take before.size = before.toList then
    Eval.releaseCallFrames .eager before.size result
  else
    throw (.failed crash)

variable (eval : Expr → Env → Eval Value)

/-- A call of a closure. -/
def applyClosure (lambda : Lambda) (env : Env) (args : List Value) (line : Nat) : Eval Value := do
  if lambda.params.length = args.length then
    let before := (← get).callFrames
    let scope ← enter crash lambda.params args env
    let result := callResult (← attempt (block eval lambda.body scope))
    releaseCallFrames crash before (result.toOption.getD .null)
    match result with
    | .ok value => return value
    | .error interrupt => throw interrupt
  else
    fail (.argumentCount lambda.params.length args.length) line

/-- One construct. The checks are in calls of closures and at positions of arrays. -/
def construct (e : Expr) (env : Env) : Eval Value :=
  match e with
  | .call token callee args => do
    let callee ← eval callee env
    let args ← expressions eval env args
    match callee with
    | .closure _ lambda env => applyClosure crash eval lambda env args token.line
    | callee => Eval.apply .eager eval callee args token.line
  | .index token base index => do
    let base ← eval base env
    let index ← eval index env
    Eval.check token.line (← demand crash (base.elementAt? index))
  | e => Eval.construct .eager eval e env

end

/-- An expression, evaluated to a depth of no more than a given number of constructs. -/
def expression (crash : Fault) : Nat → Expr → Env → Eval Value
  | 0, _, _ => throw .exhausted
  | depth + 1, e, env => construct crash (expression crash depth) e env

/-- A program. -/
def program (crash : Fault) (depth : Nat) (p : Program) (env : Env) : Eval (Option Value) :=
  Eval.programStatements (expression crash depth) env none p.statements

/-- Evaluate a program in an environment. -/
def evaluate (crash : Fault) (m : Machine) (p : Program) (env : Env) (depth : Nat) :
    Answer × Machine :=
  (.ofOutcome ((program crash depth p env).outcome m).1, ((program crash depth p env).outcome m).2)

end Checked

/-! ## Passing all checks -/

namespace Eval

variable {α β : Type} {crash : Fault}

/-- An evaluation passes its checks: where the list of free slots is right, it does what another
does that makes none, and the list is right behind them. -/
def Passes (x y : Eval α) : Prop :=
  ∀ m, m.heap.WellFormed → x.outcome m = y.outcome m ∧ (y.outcome m).2.heap.WellFormed

namespace Passes

variable {x y : Eval α} {f g : α → Eval β}

lemma bind (hx : Passes x y) (hf : ∀ a, Passes (f a) (g a)) : Passes (x >>= f) (y >>= g) := by
  intro m hm
  obtain ⟨heq, hw⟩ := hx m hm
  rcases hout : y.outcome m with ⟨i | a, m₁⟩
  · rw [outcome_bind_of_error (heq.trans hout), outcome_bind_of_error hout]
    rw [hout] at hw
    exact ⟨rfl, hw⟩
  · rw [outcome_bind_of_ok (heq.trans hout), outcome_bind_of_ok hout]
    rw [hout] at hw
    exact hf a m₁ hw

lemma of_elementary (h : Elementary x) : Passes x x :=
  fun m hm => ⟨rfl, (h.quiet m).1 ▸ hm⟩

lemma pure (a : α) : Passes (pure a) (pure a) :=
  .of_elementary (.pure a)

lemma demand {a? : Option α} {a : α} (ha : a? = some a) (hf : ∀ a, Passes (f a) (g a)) :
    Passes (Checked.demand crash a? >>= f) (g a) := by
  intro m hm
  have hdemand : (Checked.demand crash a?).outcome m = (.ok a, m) := by
    rw [ha]
    rfl
  rw [outcome_bind_of_ok hdemand]
  exact hf a m hm

end Passes

/-- A new frame is put into a slot that exists. -/
lemma outcome_newEnv_checked {m : Machine} (hm : m.heap.WellFormed) (parent : Option Env) :
    (Checked.newEnv crash parent).outcome m = (newEnv parent).outcome m := by
  have hget : (get : Eval Machine).outcome m = (.ok m, m) := rfl
  unfold Checked.newEnv
  rw [outcome_bind_of_ok hget, hm.allocate?_eq]
  rfl

lemma outcome_enter_checked {m : Machine} (hm : m.heap.WellFormed) (params : List Identifier)
    (args : List Value) (env : Env) :
    (Checked.enter crash params args env).outcome m = (enter params args env).outcome m := by
  have hnew : (newEnv (some env)).outcome m =
      (.ok (entered env m).1, { m with heap := (entered env m).2.heap }) := rfl
  unfold Checked.enter enter
  rw [outcome_bind_of_ok ((outcome_newEnv_checked hm _).trans hnew), outcome_bind_of_ok hnew]

/-- The frames noted before a call are there at its end. -/
lemma outcome_releaseCallFrames_checked {m m₂ : Machine} {made : List Env}
    (hcalls : m₂.callFrames.toList = m.callFrames.toList ++ made) (result : Value) :
    (Checked.releaseCallFrames crash m.callFrames result).outcome m₂ =
      (.ok (), released .eager m.callFrames.size result m₂) := by
  have hget : (get : Eval Machine).outcome m₂ = (.ok m₂, m₂) := rfl
  have hsize : m.callFrames.size ≤ m₂.callFrames.size := by
    have hlength := congrArg List.length hcalls
    simp only [Array.length_toList, List.length_append] at hlength
    omega
  unfold Checked.releaseCallFrames
  rw [outcome_bind_of_ok hget, if_pos ⟨hsize, Machine.take_callFrames hcalls⟩,
    outcome_releaseCallFrames]

lemma wellFormed_bound {m : Machine} (hm : m.heap.WellFormed) (scope : Env)
    (pairs : List (Identifier × Value)) : (bound scope pairs m).heap.WellFormed := by
  induction pairs generalizing m with
  | nil => exact hm
  | cons pair rest ih => exact ih (hm.set _ _ _)

/-- A call whose body leaves the frames from before it passes its checks, and ends as any call
does. -/
lemma outcome_applyClosure_checked {checked : Expr → Env → Eval Value} {m : Machine}
    {lambda : Lambda} {args : List Value} {env : Env}
    {ended : Except Interrupt (Option Value) × Machine} {made : List Env}
    (hlen : lambda.params.length = args.length) (hm : m.heap.WellFormed) (line : Nat)
    (hbody : (block checked lambda.body (entered env m).1).outcome
      (bound (entered env m).1 (lambda.params.zip args) (entered env m).2) = ended)
    (hcalls : ended.2.callFrames.toList = m.callFrames.toList ++ made) :
    (Checked.applyClosure crash checked lambda env args line).outcome m =
      (callResult ended.1, released .eager m.callFrames.size
        ((callResult ended.1).toOption.getD .null) ended.2) := by
  have hget : (get : Eval Machine).outcome m = (.ok m, m) := rfl
  have henter : (Checked.enter crash lambda.params args env).outcome m = _ :=
    (outcome_enter_checked hm _ _ _).trans (outcome_enter _ _ _ _)
  have hattempt : (attempt (block checked lambda.body (entered env m).1)).outcome
      (bound (entered env m).1 (lambda.params.zip args) (entered env m).2) =
        (.ok ended.1, ended.2) := by
    rw [outcome_attempt, hbody]
  unfold Checked.applyClosure
  rw [if_pos hlen, outcome_bind_of_ok hget, outcome_bind_of_ok henter, outcome_bind_of_ok hattempt,
    outcome_bind_of_ok (outcome_releaseCallFrames_checked hcalls _)]
  rcases callResult ended.1 with i | v <;> rfl

section Constructs

variable {checked eval : Expr → Env → Eval Value}
  (hpasses : ∀ e env, Passes (checked e env) (eval e env))
include hpasses

lemma Passes.statement (s : Stmt) (env : Env) :
    Passes (statement checked s env) (statement eval s env) := by
  cases s with
  | bind token id value =>
    refine (hpasses value env).bind fun v => ?_
    have hdefine : Passes (define env id.name v) (define env id.name v) :=
      fun m hm => ⟨rfl, hm.set _ _ v⟩
    exact hdefine.bind fun _ => .pure _
  | ret token value => exact (hpasses value env).bind fun v m hm => ⟨rfl, hm⟩
  | expr token value => exact (hpasses value env).bind fun v => .pure _

lemma Passes.statements (ss : List Stmt) (env : Env) (result : Option Value) :
    Passes (statements checked env result ss) (statements eval env result ss) := by
  induction ss generalizing result with
  | nil => exact .pure _
  | cons s rest ih => exact (Passes.statement hpasses s env).bind fun r => ih r

lemma Passes.expressions (es : List Expr) (env : Env) :
    Passes (expressions checked env es) (expressions eval env es) := by
  induction es with
  | nil => exact .pure _
  | cons e rest ih => exact (hpasses e env).bind fun v => ih.bind fun vs => .pure _

lemma Passes.branch (b? : Option Block) (env : Env) :
    Passes (branch checked env b?) (branch eval env b?) := by
  cases b? with
  | none => exact .pure _
  | some b => exact (Passes.statements hpasses b.statements env none).bind fun v => .pure _

lemma Passes.programStatements (ss : List Stmt) (env : Env) (result : Option Value) :
    Passes (programStatements checked env result ss) (programStatements eval env result ss) := by
  intro m hm
  obtain ⟨heq, hw⟩ := Passes.statements hpasses ss env result m hm
  rw [outcome_programStatements, outcome_programStatements, heq]
  exact ⟨rfl, hw⟩

variable (hcourse : TakesCourse .eager eval)
include hcourse

/-- However the body of a call ends, the frames noted before the call are noted as before. -/
lemma Passes.applyClosure (lambda : Lambda) (env : Env) (args : List Value) (line : Nat) :
    Passes (Checked.applyClosure crash checked lambda env args line)
      (applyClosure .eager eval lambda env args line) := by
  by_cases hlen : lambda.params.length = args.length
  · intro m hm
    obtain ⟨inner, hcourseBody⟩ := exists_course_body hcourse lambda env args m
    obtain ⟨made, hcalls, -⟩ := (hcourseBody.leads (hm.allocate _)).calls
    -- the frame of the call itself is noted behind those from before it
    have hentered : (entered env m).2.callFrames.toList =
        m.callFrames.toList ++ [(entered env m).1] := Array.toList_push
    rw [hentered, List.append_assoc] at hcalls
    obtain ⟨heq, hw⟩ := Passes.statements hpasses lambda.body.statements (entered env m).1 none
      (bound (entered env m).1 (lambda.params.zip args) (entered env m).2)
      (wellFormed_bound (hm.allocate _) _ _)
    rw [outcome_applyClosure_checked hlen hm line heq hcalls,
      outcome_applyClosure .eager eval hlen env line m (outcome_enter _ _ _ _) rfl]
    exact ⟨rfl, Machine.wellFormed_released hw _ _ _⟩
  · rw [Checked.applyClosure, Eval.applyClosure, if_neg hlen, if_neg hlen]
    exact .of_elementary (.fail _ line)

lemma Passes.construct (e : Expr) (env : Env) :
    Passes (Checked.construct crash checked e env) (construct .eager eval e env) := by
  cases e with
  | ident id => exact .of_elementary (.lookup env id)
  | int token value => exact .pure _
  | str token value => exact .of_elementary (.newString value)
  | bool token value => exact .pure _
  | unary token op operand =>
    exact (hpasses operand env).bind fun v => .of_elementary (.check token.line _)
  | binary token op left right =>
    exact (hpasses left env).bind fun v => (hpasses right env).bind fun w =>
      .of_elementary (.binary op v w token.line)
  | cond token condition consequence alternative =>
    exact (hpasses condition env).bind fun v => .branch hpasses _ env
  | function token params body => exact .of_elementary (.newClosure ⟨token, params, body⟩ env)
  | call token callee args =>
    refine (hpasses callee env).bind fun v => ?_
    refine (Passes.expressions hpasses args env).bind fun vs => ?_
    cases v with
    | closure id lambda env => exact .applyClosure hpasses hcourse lambda env vs token.line
    | builtin b => exact .of_elementary (.builtinCall b vs token.line)
    | int _ | bool _ | str _ _ | array _ _ | null => exact .of_elementary (.fail _ token.line)
  | array token elements =>
    exact (Passes.expressions hpasses elements env).bind fun vs => .of_elementary (.newArray vs)
  | index token base index =>
    refine (hpasses base env).bind fun v => (hpasses index env).bind fun w => ?_
    exact .demand (v.elementAt?_eq w) fun r => .of_elementary (.check token.line r)

end Constructs

lemma passes_expression (crash : Fault) (depth : Nat) (e : Expr) (env : Env) :
    Passes (Checked.expression crash depth e env) (expression .eager depth e env) := by
  induction depth generalizing e env with
  | zero => exact fun m hm => ⟨rfl, hm⟩
  | succ depth ih => exact .construct ih (takesCourse_expression .eager depth) e env

lemma passes_program (crash : Fault) (depth : Nat) (p : Program) (env : Env) :
    Passes (Checked.program crash depth p env) (program .eager depth p env) :=
  .programStatements (passes_expression crash depth) p.statements env none

end Eval

/-! ## Machines in use -/

namespace Machine

/-- What a machine is used for while no program runs on it. The environment of a program and the
roots of a collection can be any handles, stale ones among them. -/
inductive Use where
  /-- A program is evaluated, however it ends. -/
  | evaluate (p : Program) (env : Env) (depth : Nat)
  /-- Garbage is collected. -/
  | collectGarbage (roots : List Env)
  /-- What was printed is taken away. -/
  | takePrinted

/-- The machine after a use. -/
def use (m : Machine) : Use → Machine
  | .evaluate p env depth => (m.evaluate p env depth).2
  | .collectGarbage roots => (m.collectGarbage roots).2
  | .takePrinted => m.takePrinted.2

variable {m : Machine}

/-- An evaluation passes all checks, whatever fault a failed one would be. -/
lemma evaluate_checked (hm : m.heap.WellFormed) (crash : Fault) (p : Program) (env : Env)
    (depth : Nat) : Checked.evaluate crash m p env depth = m.evaluate p env depth := by
  rw [evaluate_eq, evaluateUnder, Checked.evaluate, (Eval.passes_program crash depth p env m hm).1]

/-- Where the list of free slots names one that does not exist, a call ends with the fault. -/
example (crash : Fault) (token : Token) :
    (Checked.evaluate crash { heap := { free := [0] } }
      ⟨[.expr token (.call token (.function token [] ⟨token, []⟩) [])]⟩ Env.global 2).1 =
        .failed crash :=
  rfl

lemma wellFormed_use (hm : m.heap.WellFormed) (u : Use) : (m.use u).heap.WellFormed := by
  cases u with
  | evaluate p env depth =>
    have htakes := Eval.Takes.statements (Eval.takesCourse_expression .eager depth) p.statements
    rw [use, evaluate_eq, evaluateUnder, Eval.program, Eval.outcome_programStatements]
    exact ((htakes env none m).leads hm).wellFormed
  | collectGarbage roots => exact hm.reclaimAll _
  | takePrinted => exact hm

/-- The list of free slots stays right in everything that a machine is used for. -/
lemma wellFormed_uses (uses : List Use) (hm : m.heap.WellFormed) :
    (uses.foldl use m).heap.WellFormed := by
  induction uses generalizing m with
  | nil => exact hm
  | cons u uses ih => exact ih (wellFormed_use hm u)

/-- No check fails, and with checks everything comes to what it comes to without. This holds for
every token of every text: a string starts on a line that is at least one. It holds for the first
frame of a machine. And after whatever a machine was used for, it holds for every further program,
to whatever depth it is evaluated and however it ends, and for a collection from any roots. -/
theorem no_check_fails :
    (∀ (text : String) (n : Nat),
      let s := (fun s => s.nextToken.2)^[n] (Scanner.ofString text)
      s.nextToken? = some s.nextToken) ∧
    Heap.empty.allocate? none = some (Env.global, Machine.initial.heap) ∧
    ∀ uses : List Use,
      let m := uses.foldl use Machine.initial
      (∀ crash p env depth, Checked.evaluate crash m p env depth = m.evaluate p env depth) ∧
        ∀ roots, m.heap.collect? roots = some (m.heap.collect roots) := by
  refine ⟨fun text n => ?_, Heap.wellFormed_empty.allocate?_eq none, fun uses => ?_⟩
  · exact Scanner.nextToken?_eq (Scanner.one_le_line_iterate text n)
  · have hinitial : Machine.initial.heap.WellFormed := Heap.wellFormed_empty.allocate none
    exact ⟨evaluate_checked (wellFormed_uses uses hinitial), Heap.collect?_eq _⟩

end Machine

end Bhasha
