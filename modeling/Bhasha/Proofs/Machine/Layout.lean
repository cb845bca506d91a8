import Bhasha.Proofs.Machine.Commutation
import Bhasha.Proofs.Tree.Respelling
import Bhasha.Proofs.Tree.RoundTrip

/-!
Evaluation does not depend on spelling and layout.

Tokens travel through a whole evaluation: they are in the function literals of closures, and a
fault takes its line from one. But nothing is decided by them. Two programs that are the same
without their tokens run alike, and so do a text and its rendering, or a text and the same text
with other spellings of its keywords.
-/

namespace Bhasha

/-- Two runs do the same, but for the tokens in function literals and the lines of faults. A run is
given by what it comes to within each depth. -/
structure RunsAlike (run run' : Nat → Answer × Machine) : Prop where
  /-- One run ends exactly if the other does. -/
  ends : (∃ depth, (run depth).1 ≠ .exhausted) ↔ ∃ depth, (run' depth).1 ≠ .exhausted
  /-- Whatever depths are enough, the answers are the same. -/
  answers : ∀ depth depth', (run depth).1 ≠ .exhausted → (run' depth').1 ≠ .exhausted →
    (run depth).1.relabel .bare = (run' depth').1.relabel .bare
  /-- As far as the runs go within one depth, they print the same. -/
  printed : ∀ depth, (run depth).2.printed.map (Value.relabel .bare) =
    (run' depth).2.printed.map (Value.relabel .bare)

namespace Machine

variable {p q : Program} {text text' : String}

/-- The run of a program without its tokens is the run of the program, without tokens. -/
lemma evaluate_bare (p : Program) (depth : Nat) :
    Machine.initial.evaluate (p.relabel .bare) Env.global depth =
      ((Machine.initial.evaluate p Env.global depth).1.relabel .bare,
        (Machine.initial.evaluate p Env.global depth).2.relabel .bare) := by
  have hinj : Set.InjOn Relabelling.bare.name Set.univ := fun n _ k _ h => h
  have hfits : p.Fits .bare Set.univ :=
    Stmt.fitAll_of_marks hinj p.statements fun n _ => Set.mem_univ n
  rw [evaluate_eq, evaluate_eq]
  exact evaluateUnder_relabel (fun n _ => rfl) hfits .eager depth

/-- Within one depth the two runs go the same way. -/
lemma evaluate_congr (h : p.relabel .bare = q.relabel .bare) (depth : Nat) :
    (Machine.initial.evaluate p Env.global depth).1.relabel .bare =
        (Machine.initial.evaluate q Env.global depth).1.relabel .bare ∧
      (Machine.initial.evaluate p Env.global depth).2.relabel .bare =
        (Machine.initial.evaluate q Env.global depth).2.relabel .bare := by
  have hbare := evaluate_bare p depth
  rw [h, evaluate_bare, Prod.mk.injEq] at hbare
  exact ⟨hbare.1.symm, hbare.2.symm⟩

lemma evaluate_eq_of_le {m : Machine} {depth depth' : Nat} (h : depth ≤ depth')
    (hne : (m.evaluate p Env.global depth).1 ≠ .exhausted) :
    m.evaluate p Env.global depth' = m.evaluate p Env.global depth := by
  rw [evaluate_eq] at hne
  rw [evaluate_eq, evaluate_eq, evaluateUnder_eq_of_le h hne]

lemma runsAlike_evaluate (h : p.relabel .bare = q.relabel .bare) :
    RunsAlike (Machine.initial.evaluate p Env.global) (Machine.initial.evaluate q Env.global) := by
  refine ⟨exists_congr fun depth => not_congr ?_, fun depth depth' hp hq => ?_, fun depth => ?_⟩
  · rw [← Answer.relabel_eq_exhausted (ψ := .bare), (evaluate_congr h depth).1,
      Answer.relabel_eq_exhausted]
  · have hmax := (evaluate_congr h (max depth depth')).1
    rwa [evaluate_eq_of_le (Nat.le_max_left _ _) hp,
      evaluate_eq_of_le (Nat.le_max_right _ _) hq] at hmax
  · exact congrArg Machine.printed (evaluate_congr h depth).2

lemma answer_of_parse (m : Machine) (h : Program.parse text = .ok p) (env : Env) :
    m.answer text env = m.evaluate p env := by
  funext depth
  rw [answer, h]

lemma runsAlike_answer (hp : Program.parse text = .ok p) (hq : Program.parse text' = .ok q)
    (h : p.relabel .bare = q.relabel .bare) :
    RunsAlike (Machine.initial.answer text Env.global)
      (Machine.initial.answer text' Env.global) := by
  rw [answer_of_parse _ hp, answer_of_parse _ hq]
  exact runsAlike_evaluate h

end Machine

/-- Evaluation does not depend on spelling and layout. Two programs that are the same without their
tokens run alike. So a text without faults and its rendering run alike, and so do a text and the
same text with any of its keywords in another spelling; both have no faults either. -/
theorem Program.spelling_unobservable :
    (∀ p q : Program, p.relabel .bare = q.relabel .bare →
      RunsAlike (Machine.initial.evaluate p Env.global)
        (Machine.initial.evaluate q Env.global)) ∧
    (∀ text p, Program.parse text = .ok p →
      (∃ q, Program.parse p.render = .ok q) ∧
        RunsAlike (Machine.initial.answer text Env.global)
          (Machine.initial.answer p.render Env.global)) ∧
    ∀ text text' p, Program.parse text = .ok p →
      (Scanner.ofString text).Respells text'.toList →
      (∃ q, Program.parse text' = .ok q) ∧
        RunsAlike (Machine.initial.answer text Env.global)
          (Machine.initial.answer text' Env.global) := by
  refine ⟨fun p q => Machine.runsAlike_evaluate, fun text p hp => ?_,
    fun text text' p hp hrespells => ?_⟩
  · have hread := Program.parse_eq_ok_iff.1 hp
    have hfaithful := Program.faithful_read text
    rw [hread] at hfaithful
    obtain ⟨q, hderives, herase⟩ := hfaithful.derives
    have hq := Program.parse_eq_ok_iff_derives.2 hderives
    exact ⟨⟨q, hq⟩,
      Machine.runsAlike_answer hp hq (Program.relabel_bare_eq_of_erase_eq herase.symm)⟩
  · obtain ⟨q, hderives, heq⟩ :=
      (Program.parse_eq_ok_iff_derives.1 hp).of_alike hrespells.alike
    have hq := Program.parse_eq_ok_iff_derives.2 hderives
    exact ⟨⟨q, hq⟩, Machine.runsAlike_answer hp hq heq.symm⟩

/-- Two keywords of a text in other spellings, of which the second is part of a value. -/
theorem Program.spelling_unobservable_of_words :
    ∃ p q, Program.parse "let f = fn(x) \x7b x \x7d; f" = .ok p ∧
      p.relabel .bare = q.relabel .bare ∧
      (Scanner.ofString "let f = fn(x) \x7b x \x7d; f").Respells
        "ধরি f = kaj(x) \x7b x \x7d; f".toList ∧
      RunsAlike (Machine.initial.evaluate p Env.global) (Machine.initial.evaluate q Env.global) ∧
      RunsAlike (Machine.initial.answer "let f = fn(x) \x7b x \x7d; f" Env.global)
        (Machine.initial.answer p.render Env.global) ∧
      RunsAlike (Machine.initial.answer "let f = fn(x) \x7b x \x7d; f" Env.global)
        (Machine.initial.answer "ধরি f = kaj(x) \x7b x \x7d; f" Env.global) := by
  have hp : Program.parse "let f = fn(x) \x7b x \x7d; f" =
      .ok (Program.read "let f = fn(x) \x7b x \x7d; f").1 :=
    Program.parse_eq_ok_iff.2 (Prod.ext rfl (by decide +kernel))
  obtain ⟨cs, hrespells, hcs⟩ : ∃ cs,
      (Scanner.ofString "let f = fn(x) \x7b x \x7d; f").Respells cs ∧
        cs = "ধরি f = kaj(x) \x7b x \x7d; f".toList :=
    ⟨_, @Scanner.Respells.replace _ [] _ "ধরি" (by decide +kernel) (by decide +kernel)
      (@Scanner.Respells.keep _ [' ', 'f'] _ (by decide +kernel) (by decide +kernel)
        (@Scanner.Respells.keep _ [' ', '='] _ (by decide +kernel) (by decide +kernel)
          (@Scanner.Respells.replace _ [' '] _ "kaj" (by decide +kernel) (by decide +kernel)
            .rest))),
      by decide +kernel⟩
  rw [hcs] at hrespells
  obtain ⟨q, -, heq⟩ := (Program.parse_eq_ok_iff_derives.1 hp).of_alike hrespells.alike
  obtain ⟨hprograms, hrendering, hspelling⟩ := Program.spelling_unobservable
  exact ⟨_, q, hp, heq.symm, hrespells, hprograms _ q heq.symm, (hrendering _ _ hp).2,
    (hspelling _ _ _ hp hrespells).2⟩

end Bhasha
