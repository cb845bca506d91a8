import Bhasha.Proofs.Machine.Release

/-!
Collecting garbage between programs cannot be observed.

A session evaluates programs one after the other in the outermost environment. Garbage can be
collected behind each of them, and a session is free to do so or not. Two sessions that evaluate
the same programs keep step whatever each of them collects: a collection keeps the outermost
environment and all that it reaches, and that is all that a later program can find.
-/

namespace Bhasha

namespace Machine

/-! ## Between two programs -/

/-- The machine as the next program finds it: what was printed has been taken away, and garbage
has been collected if that was asked for. -/
def tidied (collects : Bool) (m : Machine) : Machine :=
  if collects then (m.takePrinted.2.collectGarbage []).2 else m.takePrinted.2

variable {m m' : Machine} {π : Renaming}

@[simp] lemma nextObject_tidied (collects : Bool) (m : Machine) :
    (m.tidied collects).nextObject = m.nextObject := by
  cases collects <;> rfl

@[simp] lemma printed_tidied (collects : Bool) (m : Machine) :
    (m.tidied collects).printed = #[] := by
  cases collects <;> rfl

lemma sound_tidied (hs : m.heap.Sound) (collects : Bool) : (m.tidied collects).heap.Sound := by
  cases collects with
  | false => exact hs
  | true => exact hs.collect _

lemma frame?_tidied {collects : Bool} {e : Env} (he : (m.tidied collects).heap.contains e) :
    (m.tidied collects).heap.frame? e = m.heap.frame? e := by
  cases collects with
  | false => rfl
  | true => exact Heap.frame?_collect he

lemma contains_global_tidied (hglobal : m.heap.contains Env.global) (collects : Bool) :
    (m.tidied collects).heap.contains Env.global := by
  cases collects with
  | false => exact hglobal
  | true => exact Heap.contains_collect_of_mem hglobal (by simp)

/-- Machines that match still do when each has been tidied up in its own way. -/
lemma Matches.tidied (hm : m.Matches π m') (hglobal : π.Renames Env.global Env.global)
    (collects collects' : Bool) :
    ∃ ρ : Renaming, (m.tidied collects).Matches ρ (m'.tidied collects') ∧
      ρ.Renames Env.global Env.global := by
  have hdom : Env.global ∈ π.dom := hglobal.1 _ rfl
  have hmap : Env.global = π.map Env.global := hglobal.2
  have hlive' : m'.heap.contains Env.global := hmap ▸ hm.contains_map hdom
  refine ⟨_, hm.restrict (sound_tidied hm.sound collects) (sound_tidied hm.sound' collects')
    (fun _ => frame?_tidied) (fun _ => frame?_tidied) nofun (by simpa using hm.nextObject)
    (by simp), ?_⟩
  refine ⟨?_, hmap⟩
  rintro e rfl
  refine ⟨hdom, contains_global_tidied (hm.contains hdom) collects, ?_⟩
  rw [← hmap]
  exact contains_global_tidied hlive' collects'

/-- Two programs that end on machines that match end alike. -/
lemma Matches.ends (hm : m.Matches π m') (hglobal : π.Renames Env.global Env.global)
    {policy policy' : ReleasePolicy} {p : Program} {a a' : Answer} {m₁ m₁' : Machine}
    (ha : m.Ends policy p a m₁) (ha' : m'.Ends policy' p a' m₁') :
    ∃ ρ : Renaming, π ≤ ρ ∧ m₁.Matches ρ m₁' ∧ a.Alike ρ.map a' ∧ ∀ e, a.Holds e → e ∈ ρ.dom := by
  have hne : a ≠ .exhausted := ha.choose_spec.2
  obtain ⟨depth, heq, heq'⟩ := ha.exists_depth ha'
  rcases hm.evaluateUnder hglobal policy policy' p depth heq heq' with ⟨hx, -⟩ | hρ
  · exact absurd hx hne
  · exact hρ

end Machine

/-! ## Whole sessions -/

namespace Session

/-- What a program of a session gives: its answer, and the machine as it stood at its end. -/
structure Reply where
  /-- How the program ended. -/
  answer : Answer
  /-- The machine when it ended, before anything was taken away or collected. -/
  machine : Machine

/-- Two replies that cannot be told apart. The same text was printed, and the answers are the same
up to a renaming of handles, which takes every frame that the one answer reaches to the frame
that the other reaches in its place. -/
def Reply.Alike (r r' : Reply) : Prop :=
  r'.machine.takePrinted.1 = r.machine.takePrinted.1 ∧
    ∃ σ : Env → Env, r.answer.Alike σ r'.answer ∧
      Set.InjOn σ (r.answer.reach r.machine.heap) ∧
        ∀ e ∈ r.answer.reach r.machine.heap,
          ∃ f, r.machine.heap.frame? e = some f ∧ r'.machine.heap.frame? (σ e) = some (f.rename σ)

/-- The replies of a session to the programs of a script, if each of them ends. A program stands in
the script with whether garbage is collected behind it. -/
inductive Replies : Machine → List (Program × Bool) → List Reply → Prop
  | nil {m : Machine} : Replies m [] []
  | cons {m m₁ : Machine} {p : Program} {collects : Bool} {a : Answer}
      {script : List (Program × Bool)} {replies : List Reply} :
      m.Ends .eager p a m₁ → Replies (m₁.tidied collects) script replies →
      Replies m ((p, collects) :: script) (⟨a, m₁⟩ :: replies)

/-- The script of a session in which nothing is collected. -/
def uncollected (script : List (Program × Bool)) : List (Program × Bool) :=
  script.map fun line => (line.1, false)

variable {m m' : Machine} {π : Renaming} {script script' : List (Program × Bool)}

/-- Machines that match at the end of a program give replies that are alike. -/
lemma Reply.alike_of_matches {a a' : Answer} (hm : m.Matches π m') (ha : a.Alike π.map a')
    (hdom : ∀ e, a.Holds e → e ∈ π.dom) : Reply.Alike ⟨a, m⟩ ⟨a', m'⟩ := by
  have hreach : ∀ e ∈ a.reach m.heap, e ∈ π.dom := fun e ⟨d, hd, hde⟩ =>
    hm.mem_dom_of_reaches (hdom d hd) hde
  refine ⟨hm.takePrinted, π.map, ha, hm.injOn.mono hreach, fun e he => ?_⟩
  obtain ⟨f, hf, hf', -⟩ := hm.frames e (hreach e he)
  exact ⟨f, hf, hf'⟩

/-- If all programs of a session end, so do the same programs of any other, and the replies are
alike. -/
lemma Replies.exists_alike {replies : List Reply} (h : Replies m script replies)
    (hm : m.Matches π m') (hglobal : π.Renames Env.global Env.global)
    (hscript : script'.map Prod.fst = script.map Prod.fst) :
    ∃ replies', Replies m' script' replies' ∧ List.Forall₂ Reply.Alike replies replies' := by
  induction h generalizing m' π script' with
  | nil =>
    obtain rfl : script' = [] := List.map_eq_nil_iff.1 hscript
    exact ⟨[], .nil, .nil⟩
  | @cons m m₁ p collects a script replies hend _ ih =>
    obtain ⟨⟨p', collects'⟩, rest, rfl, hp, hrest⟩ := List.map_eq_cons_iff.1 hscript
    obtain rfl : p' = p := hp
    obtain ⟨a', m₁', hend'⟩ : ∃ a' m₁', m'.Ends .eager p' a' m₁' :=
      hm.exists_ends hglobal ⟨a, m₁, hend⟩
    obtain ⟨ρ, hle, hm₁, halike, hdom⟩ := hm.ends hglobal hend hend'
    obtain ⟨ρ', hm₂, hglobal₂⟩ := hm₁.tidied (hglobal.mono hle) collects collects'
    obtain ⟨replies', hreplies', hall⟩ := ih hm₂ hglobal₂ hrest
    exact ⟨_, .cons hend' hreplies', .cons (Reply.alike_of_matches hm₁ halike hdom) hall⟩

/-- A script has one list of replies. -/
lemma Replies.unique {replies replies' : List Reply} (h : Replies m script replies)
    (h' : Replies m script replies') : replies' = replies := by
  induction h generalizing replies' with
  | nil =>
    cases h'
    rfl
  | cons hend _ ih =>
    cases h' with
    | cons hend' hrest' =>
      obtain ⟨rfl, rfl⟩ := hend.unique hend'
      rw [ih hrest']

lemma map_fst_uncollected (script : List (Program × Bool)) :
    (uncollected script).map Prod.fst = script.map Prod.fst := by
  rw [uncollected, List.map_map]
  rfl

/-- Collecting garbage between the programs of a session cannot be observed. However the choice is
made behind which programs garbage is collected, all programs of the session end exactly if they
all end where nothing is collected. Program by program the replies are then alike: the same text
is printed, and the answer is the same up to a renaming of handles, be it a value, no value, a
value returned from the program itself, or a fault. -/
theorem collection_unobservable (script : List (Program × Bool)) :
    ((∃ replies, Replies Machine.initial script replies) ↔
        ∃ replies, Replies Machine.initial (uncollected script) replies) ∧
      ∀ replies replies', Replies Machine.initial script replies →
        Replies Machine.initial (uncollected script) replies' →
          List.Forall₂ Reply.Alike replies replies' := by
  have hinitial := Machine.matches_initial
  have hglobal : Renaming.Renames ⟨{Env.global}, id⟩ Env.global Env.global :=
    ⟨fun _ he => he, rfl⟩
  have hscript := map_fst_uncollected script
  refine ⟨⟨fun ⟨replies, h⟩ => ?_, fun ⟨replies, h⟩ => ?_⟩, fun replies replies' h h' => ?_⟩
  · obtain ⟨replies', h', -⟩ := h.exists_alike hinitial hglobal hscript
    exact ⟨replies', h'⟩
  · obtain ⟨replies', h', -⟩ := h.exists_alike hinitial hglobal hscript.symm
    exact ⟨replies', h'⟩
  · obtain ⟨others, hothers, hall⟩ := h.exists_alike hinitial hglobal hscript
    rwa [hothers.unique h']

/-- A closure that was kept is called after a collection that has given the frame of another back,
and a new closure is returned from the program. -/
theorem collection_unobservable_of_closures :
    ∃ script replies replies', Replies Machine.initial script replies ∧
      Replies Machine.initial (uncollected script) replies' ∧
        replies.map (·.machine.heap.size) = [3, 3] ∧
          replies'.map (·.machine.heap.size) = [3, 4] ∧
            List.Forall₂ Reply.Alike replies replies' := by
  let script : List (Program × Bool) :=
    [((Program.read
        "let make = fn(x) \x7b fn(y) \x7b x + y \x7d \x7d; make(1); let add = make(2);").1, true),
      ((Program.read "puts(add(3)); return [make(add(4))]; missing").1, true)]
  have h : Replies Machine.initial script _ :=
    .cons ⟨20, rfl, by decide +kernel⟩ (.cons ⟨20, rfl, by decide +kernel⟩ .nil)
  have h' : Replies Machine.initial (uncollected script) _ :=
    .cons ⟨20, rfl, by decide +kernel⟩ (.cons ⟨20, rfl, by decide +kernel⟩ .nil)
  exact ⟨script, _, _, h, h', by decide +kernel, by decide +kernel,
    (collection_unobservable script).2 _ _ h h'⟩

end Session

end Bhasha
