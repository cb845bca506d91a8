import Bhasha.Proofs.Machine.Release

/-!
Where returns end.

A return ends the call around it. Outside of calls it ends the program, or the block that is
evaluated by itself. To the statements themselves this makes no difference: a block does what its
statements do as a program, and so does a function that has it as its body and is called at once.

For blocks this is an equation. A call has a frame of its own, inside the outermost one, and the
function literal is an object that was made before, so in a call the same frames have other
handles and the same objects other numbers. The two runs mirror each other, and what a call makes
of its body at the end is to put null in the place of no value.
-/

namespace Bhasha

namespace Eval

/-- A block evaluated by itself does what its statements do as a program. -/
lemma outcome_node_block (policy : ReleasePolicy) (depth : Nat) (b : Block) (env : Env)
    (m : Machine) :
    (node policy depth (.block b) env).outcome m =
      (node policy depth (.program ⟨b.statements⟩) env).outcome m := by
  show (finish (statements (expression policy depth) env none b.statements)).outcome m =
    (programStatements (expression policy depth) env none b.statements).outcome m
  rw [outcome_finish, outcome_programStatements]

end Eval

/-! ## Blocks that are called -/

/-- The program that calls a function without parameters, with the block as its body, where it is
made. -/
def Block.called (b : Block) (first paren keyword : Token) : Program :=
  ⟨[.expr first (.call paren (.function keyword [] b) [])]⟩

/-- The answer of a call: null stands for no value. -/
def Answer.orNull : Answer → Answer
  | .value none => .value (some .null)
  | a => a

/-- The answer on another machine: a value has its handles renamed and its objects numbered
further on, and a fault is the same. -/
def Answer.transfer (k : Nat) (σ : Env → Env) : Answer → Answer
  | .value v => .value (v.map (Value.transfer k σ))
  | .unreadable faults => .unreadable faults
  | .failed fault => .failed fault
  | .exhausted => .exhausted

lemma Answer.transfer_orNull_eq_exhausted {k : Nat} {σ : Env → Env} {a : Answer} :
    a.orNull.transfer k σ = .exhausted ↔ a = .exhausted := by
  rcases a with (_ | v) | _ | _ | _ <;> simp [Answer.orNull, Answer.transfer]

lemma Answer.ofOutcome_finished (r : Except Interrupt (Option Value)) :
    Answer.ofOutcome (Eval.finished r) = Answer.ofOutcome r := by
  rcases r with (v | fault | _) | v <;> rfl

/-- What a call makes of the end of its body. -/
lemma Answer.ofOutcome_callResult {k : Nat} {σ : Env → Env} (r : Except Interrupt (Option Value)) :
    Answer.ofOutcome ((Eval.callResult (Transferable.transfer k σ r)).map some) =
      (Answer.ofOutcome r).orNull.transfer k σ := by
  rcases r with (v | fault | _) | (_ | v) <;> rfl

lemma Answer.holds_of_holds_ofOutcome {k : Nat} {σ : Env → Env}
    {r : Except Interrupt (Option Value)} {e : Env} (he : (Answer.ofOutcome r).Holds e) :
    Transferable.Holds r e ∧ Eval.OutcomeHolds Eval.HeldIn
      ((Eval.callResult (Transferable.transfer k σ r)).map some) (σ e) := by
  rcases r with (v | fault | _) | v
  · obtain ⟨w, hw, he⟩ := he
    obtain rfl := Option.some.inj hw
    exact ⟨he, v.transfer k σ, rfl, he.transfer⟩
  · exact he.elim
  · exact he.elim
  · obtain ⟨w, rfl, he⟩ := he
    exact ⟨⟨w, rfl, he⟩, w.transfer k σ, rfl, he.transfer⟩

namespace Machine

/-- A program gives the answer that its statements give as a block. -/
lemma evaluateUnder_statements (policy : ReleasePolicy) (m : Machine) (b : Block) (env : Env)
    (depth : Nat) :
    m.evaluateUnder policy ⟨b.statements⟩ env depth =
      (.ofOutcome ((Eval.block (Eval.expression policy depth) b env).outcome m).1,
        ((Eval.block (Eval.expression policy depth) b env).outcome m).2) := by
  rw [evaluateUnder, Eval.program, Eval.outcome_programStatements, Answer.ofOutcome_finished]
  rfl

/-- The machine on which the function literal was made. -/
def withLiteral : Machine :=
  { Machine.initial with nextObject := 1 }

/-- What a body finds when it is called at once: the outermost frame is empty and lies around. -/
def callSetting : Setting where
  shift := 1
  outer := some Env.global

lemma mirrors_called :
    Machine.initial.Mirrors callSetting
      ⟨{Env.global}, fun _ => (Eval.entered Env.global withLiteral).1⟩
      (Eval.entered Env.global withLiteral).2 where
  sound := atRest_initial.sound
  sound' := (enters_entered (m := withLiteral) atRest_initial.sound
    atRest_initial.contains_global).sound
  injOn := Set.injOn_singleton _ _
  frames := by
    rintro e rfl
    refine ⟨{}, rfl, rfl, ?_⟩
    rintro d (hd | ⟨b, hb, -⟩)
    · cases hd
    · cases hb
  outer := by
    rintro o ⟨⟩
    exact ⟨rfl, fun _ _ h => nomatch congrArg Env.index h⟩
  nextObject := rfl
  printed := rfl

/-- A call of a function literal runs its body in a frame inside the outermost one. -/
lemma outcome_called (policy : ReleasePolicy) (depth : Nat) (b : Block)
    (first paren keyword : Token) {r : Except Interrupt (Option Value)} {m : Machine}
    (hbody : (Eval.block (Eval.expression policy (depth + 1)) b
      (Eval.entered Env.global withLiteral).1).outcome (Eval.entered Env.global withLiteral).2 =
        (r, m)) :
    (Eval.program policy (depth + 2) (b.called first paren keyword) Env.global).outcome
        Machine.initial =
      ((Eval.callResult r).map some,
        Eval.released policy 0 ((Eval.callResult r).toOption.getD .null) m) := by
  have hliteral : (Eval.expression policy (depth + 1) (.function keyword [] b)
      Env.global).outcome Machine.initial =
        (.ok (.closure 0 ⟨keyword, [], b⟩ Env.global), withLiteral) := rfl
  have hparams : (⟨keyword, [], b⟩ : Lambda).params.length = ([] : List Value).length := rfl
  have hcall : (Eval.expression policy (depth + 2) (.call paren (.function keyword [] b) [])
      Env.global).outcome Machine.initial = (Eval.callResult r,
        Eval.released policy 0 ((Eval.callResult r).toOption.getD .null) m) :=
    (Eval.outcome_bind_of_ok hliteral _).trans
      ((Eval.outcome_bind_of_ok (Eval.outcome_pure [] _) _).trans
        (Eval.outcome_applyClosure policy _ hparams Env.global paren.line withLiteral
          (Eval.outcome_enter [] [] _ _) hbody))
  have hstatements : (Eval.statements (Eval.expression policy (depth + 2)) Env.global none
      (b.called first paren keyword).statements).outcome Machine.initial =
        ((Eval.callResult r).map some,
          Eval.released policy 0 ((Eval.callResult r).toOption.getD .null) m) := by
    rcases hr : Eval.callResult r with i | v
    · rw [hr] at hcall
      exact Eval.outcome_bind_of_error (Eval.outcome_bind_of_error hcall _) _
    · rw [hr] at hcall
      exact (Eval.outcome_bind_of_ok (Eval.outcome_bind_of_ok hcall _) _).trans rfl
  rw [Eval.program, Eval.outcome_programStatements, hstatements]
  -- the call has ended every return
  rcases r with (v | fault | _) | v <;> rfl

/-- The statements of a block give the same answer, up to its place in a call, if the block is the
body of a function that is called at once. -/
lemma evaluateUnder_called (policy : ReleasePolicy) (depth : Nat) (b : Block)
    (first paren keyword : Token) {a a' : Answer} {m m' : Machine}
    (ha : Machine.initial.evaluateUnder policy ⟨b.statements⟩ Env.global (depth + 1) = (a, m))
    (ha' : Machine.initial.evaluateUnder policy (b.called first paren keyword) Env.global
      (depth + 2) = (a', m')) :
    ∃ ρ : Renaming, m.Mirrors callSetting ρ m' ∧ a' = a.orNull.transfer 1 ρ.map ∧
      ∀ e, a.Holds e → e ∈ ρ.dom := by
  have hstart : Renaming.Transfers ⟨{Env.global}, fun _ => (Eval.entered Env.global withLiteral).1⟩
      callSetting.shift Env.global (Eval.entered Env.global withLiteral).1 :=
    ⟨fun _ he => he, rfl⟩
  -- the statements keep step with the body of the call
  obtain ⟨ρ, -, hm, hdom, hr⟩ := Eval.Simulates.block
    (Eval.inStep_expression policy policy (depth + 1)) mirrors_called hstart b
  rcases hbody : (Eval.block (Eval.expression policy (depth + 1)) b
    (Eval.entered Env.global withLiteral).1).outcome _ with ⟨r', m₂⟩
  rw [hbody] at hm hr
  rw [evaluateUnder_statements, Prod.mk.injEq] at ha
  rw [evaluateUnder, outcome_called policy depth b first paren keyword hbody, Prod.mk.injEq] at ha'
  obtain ⟨rfl, rfl⟩ := ha
  obtain ⟨rfl, rfl⟩ := ha'
  -- what the call hands on is still there when it has given its frames back
  have hsafe : Eval.Safe policy Env.global Eval.HeldIn _ _ := Eval.Safe.program
    atRest_initial.sound atRest_initial.contains_global (depth + 2) (b.called first paren keyword)
  rw [Eval.Safe, outcome_called policy depth b first paren keyword hbody] at hsafe
  obtain ⟨hev, hheld⟩ := hsafe
  have houter : ∀ o ∈ callSetting.outer, (Eval.released policy 0
      ((Eval.callResult r').toOption.getD .null) m₂).heap.contains o := by
    rintro o ⟨⟩
    exact hev.contains atRest_initial.contains_global
  refine ⟨_, hm.restrict hm.sound hev.sound (fun _ _ => rfl) (fun _ => frame?_released) houter
    (by simpa using hm.nextObject) (by simpa using hm.printed), ?_, fun e he => ?_⟩
  · subst hr
    exact Answer.ofOutcome_callResult _
  · subst hr
    obtain ⟨hold, hheld'⟩ := Answer.holds_of_holds_ofOutcome he
    exact ⟨hdom e hold, hm.contains (hdom e hold), hheld _ hheld'⟩

end Machine

/-- A list of statements means the same wherever a return can end it. On every machine and in every
environment a block evaluated by itself does what its statements do as a program. On a new machine,
the call of a function without parameters that has the block as its body ends exactly if the
statements do. Both runs then print the same text, and the answer of the call is that of the
statements: the same fault on the same line, null for no value, or the same value up to a renaming
of handles, with objects numbered one further on since the function literal was the first. The
renaming also takes every frame that the one answer reaches to the frame that the other reaches. -/
theorem return_boundaries_agree (b : Block) (policy : ReleasePolicy) :
    (∀ depth env m, (Eval.node policy depth (.block b) env).outcome m =
        (Eval.node policy depth (.program ⟨b.statements⟩) env).outcome m) ∧
      ∀ first paren keyword : Token,
        ((∃ a m, Machine.initial.Ends policy ⟨b.statements⟩ a m) ↔
            ∃ a m, Machine.initial.Ends policy (b.called first paren keyword) a m) ∧
          ∀ a m a' m', Machine.initial.Ends policy ⟨b.statements⟩ a m →
            Machine.initial.Ends policy (b.called first paren keyword) a' m' →
              m'.takePrinted.1 = m.takePrinted.1 ∧
                ∃ σ : Env → Env, a' = a.orNull.transfer 1 σ ∧ Set.InjOn σ (a.reach m.heap) ∧
                  ∀ e ∈ a.reach m.heap, ∃ f, m.heap.frame? e = some f ∧
                    m'.heap.frame? (σ e) = some (f.transfer 1 (some Env.global) σ) := by
  refine ⟨fun depth env m => Eval.outcome_node_block policy depth b env m,
    fun first paren keyword => ⟨⟨?_, ?_⟩, ?_⟩⟩
  · rintro ⟨a, m, h⟩
    obtain ⟨depth, ha⟩ := h.exists_forall_le
    refine ⟨_, _, depth + 2, rfl, fun hx => h.ne_exhausted ?_⟩
    obtain ⟨ρ, -, hanswer, -⟩ := Machine.evaluateUnder_called policy depth b first paren keyword
      (ha (depth + 1) (Nat.le_succ depth)) rfl
    exact Answer.transfer_orNull_eq_exhausted.1 (hanswer.symm.trans hx)
  · rintro ⟨a', m', h'⟩
    obtain ⟨depth, ha'⟩ := h'.exists_forall_le
    refine ⟨_, _, depth + 1, rfl, fun hx => h'.ne_exhausted ?_⟩
    obtain ⟨ρ, -, hanswer, -⟩ := Machine.evaluateUnder_called policy depth b first paren keyword rfl
      (ha' (depth + 2) (Nat.le_add_right depth 2))
    exact hanswer.trans (Answer.transfer_orNull_eq_exhausted.2 hx)
  · intro a m a' m' h h'
    obtain ⟨d, ha⟩ := h.exists_forall_le
    obtain ⟨d', ha'⟩ := h'.exists_forall_le
    obtain ⟨ρ, hm, hanswer, hdom⟩ := Machine.evaluateUnder_called policy (max d d') b first paren
      keyword (ha _ (by omega)) (ha' _ (by omega))
    have hreach : ∀ e ∈ a.reach m.heap, e ∈ ρ.dom := fun e ⟨c, hc, hce⟩ =>
      hm.mem_dom_of_reaches (hdom c hc) hce
    refine ⟨hm.takePrinted, ρ.map, hanswer, hm.injOn.mono hreach, fun e he => ?_⟩
    obtain ⟨f, hf, hf', -⟩ := hm.frames e (hreach e he)
    exact ⟨f, hf, hf'⟩

/-- Statements that print and then return an array with a closure, whose frame has another handle if
they are called. -/
theorem return_boundaries_agree_of_closure :
    ∃ (b : Block) (a : Answer) (m : Machine) (a' : Answer) (m' : Machine),
      Machine.initial.Ends .eager ⟨b.statements⟩ a m ∧
        Machine.initial.Ends .eager (b.called default default default) a' m' ∧
          m.takePrinted.1 = "3\n" ∧ m'.takePrinted.1 = m.takePrinted.1 ∧
            ∃ σ : Env → Env, a' = a.orNull.transfer 1 σ := by
  let b : Block := .mk default (Program.read
    "let make = fn(x) \x7b fn(y) \x7b x + y \x7d \x7d; puts(make(1)(2)); return [make(3)]; none"
    ).1.statements
  have ha : Machine.initial.Ends .eager ⟨b.statements⟩ _ _ := ⟨20, rfl, by decide +kernel⟩
  have ha' : Machine.initial.Ends .eager (b.called default default default) _ _ :=
    ⟨20, rfl, by decide +kernel⟩
  obtain ⟨hprinted, σ, hanswer, -⟩ :=
    ((return_boundaries_agree b .eager).2 default default default).2 _ _ _ _ ha ha'
  exact ⟨b, _, _, _, _, ha, ha', by decide +kernel, hprinted, σ, hanswer⟩

end Bhasha
