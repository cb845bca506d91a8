import Bhasha.Proofs.Tree.Lines
import Bhasha.Proofs.Tree.Recognition
import Bhasha.Proofs.Tree.Termination

/-!
A program behind another.

What a statement is depends on the token behind it, unless it ends in a semicolon. So a text that
is read without a fault and ends in a semicolon is read in the same way before any other text, even
before one that is no program, and the other text is read as if it stood alone. The parser carries
nothing over but the lines.

The bound of the parser counts the tokens of both texts, and read alone the second one has a smaller
bound. Neither bound is what ends a reading, so they do not matter.
-/

namespace Bhasha

namespace Grammar

variable {next next' : Kind} {ts : List Token}

/-- A binding or a return that ends in a semicolon has an end before any token. -/
lemma Closing.of_semicolon {us : List Token} (h : Closing next us) {e : Expr} (hts : Whole ts e)
    {t : Token} (hsemi : ((ts ++ us).getLastD t).kind = .semicolon) : Closing next' us := by
  cases h with
  | semicolon hc => exact .semicolon hc
  | omitted _ =>
    rw [List.append_nil] at hsemi
    exact absurd hsemi (Reader.kind_getLastD_of_whole hts t)

/-- A statement that ends in a semicolon is one before any token. -/
lemma Sentence.of_semicolon {s : Stmt} (h : Sentence next ts s) {t : Token}
    (hsemi : (ts.getLastD t).kind = .semicolon) : Sentence next' ts s := by
  cases h with
  | bind ht hid ha hts hus =>
    simp only [List.getLastD_cons] at hsemi
    exact .bind ht hid ha hts (hus.of_semicolon hts hsemi)
  | ret ht hts hus =>
    rw [List.getLastD_cons] at hsemi
    exact .ret ht hts (hus.of_semicolon hts hsemi)
  | expr hts hus =>
    cases hus with
    | semicolon hc => exact .expr hts (.semicolon hc)
    | omitted _ =>
      rw [List.append_nil] at hsemi
      exact absurd hsemi (Reader.kind_getLastD_of_whole hts t)

lemma Sentences.exists_cons {s : Stmt} {ss : List Stmt} (h : Sentences next ts (s :: ss)) :
    ∃ t us, ts = t :: us ∧ startsSentence t.kind := by
  cases h with
  | cons hs _ =>
    obtain ⟨t, us, rfl, ht⟩ := hs.exists_cons
    exact ⟨t, _, rfl, ht⟩

lemma Sentences.of_semicolon {ss : List Stmt} (h : Sentences next ts ss) {t : Token}
    (hsemi : (ts.getLastD t).kind = .semicolon) : Sentences next' ts ss := by
  induction ss generalizing ts t with
  | nil =>
    cases h
    exact .nil
  | cons s ss ih =>
    cases h with
    | @cons _ ts us _ _ hs hus =>
    rw [getLastD_append] at hsemi
    cases ss with
    | nil =>
      cases hus
      exact .cons (hs.of_semicolon hsemi) .nil
    | cons s' ss =>
      -- before another statement it does not matter what follows them all
      obtain ⟨u, us, rfl, -⟩ := hus.exists_cons
      exact .cons hs (ih hus hsemi)

end Grammar

namespace Reader

open Grammar

variable {last : Token} {faults : Array SyntaxFault} {ts rest : List Token}

/-- Readings that come to the same, with the same reading behind them. -/
lemma bind_congr_outcome {α β : Type} {x y : Reader α} {c c' : Cursor} (h : x c = y c')
    (f : α → Reader β) : (x >>= f) c = (y >>= f) c' := by
  show EStateM.bind x f c = EStateM.bind y f c'
  rw [EStateM.bind, EStateM.bind, h]

/-- Statements in front, the last of which ends in a semicolon, are read whatever comes behind
them, and then reading goes on there. -/
lemma statementsUntil_append (hlast : last.kind = .eof) {E : Precedence → Reader Expr} {n : Nat}
    (hexpr : ReadsEvery last faults E n) {ss : List Stmt}
    (h : Sentences (firstKind rest .eof) ts ss)
    (hsemi : ts = [] ∨ (ts.getLastD last).kind = .semicolon)
    (hlen : ts.length + rest.length ≤ n) {k : Nat} (hk : ts.length + rest.length ≤ k) :
    ∃ k', rest.length ≤ k' ∧
      statementsUntil E (fun _ => false) k ⟨ts ++ rest, last, faults⟩ =
        (statementsUntil E (fun _ => false) k' >>= fun more => pure (ss ++ more))
          ⟨rest, last, faults⟩ := by
  induction ss generalizing ts k with
  | nil =>
    cases h
    refine ⟨k, by simpa using hk, ?_⟩
    simp only [List.nil_append, bind_pure]
  | cons s ss ih =>
    cases h with
    | @cons _ ts us _ _ hs hus =>
    obtain ⟨t, ts', rfl, hstart⟩ := hs.exists_cons
    simp only [List.length_append, List.length_cons] at hlen hk
    obtain ⟨k, rfl⟩ : ∃ j, k = j + 1 := ⟨k - 1, by omega⟩
    have hsemi : (us.getLastD ((t :: ts').getLastD last)).kind = .semicolon := by
      rw [← getLastD_append]
      exact hsemi.resolve_left (by simp)
    have hfirst : Clean last faults (statement E) ((t :: ts') ++ (us ++ rest)) s
        ((t :: ts').getLastD last :: (us ++ rest)) := by
      rw [← firstKind_append] at hs
      refine clean_statement hlast hexpr hs (by simp; omega) fun hopen => ?_
      -- the statement does not end in a semicolon, so it is not the last one
      cases ss with
      | nil =>
        cases hus
        exact absurd hsemi hopen
      | cons s' ss =>
        obtain ⟨u, us, rfl, hnext⟩ := hus.exists_cons
        rw [List.cons_append, firstKind_cons]
        constructor <;> intro heq <;> rw [heq] at hnext <;> cases hnext
    have hus' : us = [] ∨ (us.getLastD last).kind = .semicolon := by
      cases us with
      | nil => exact Or.inl rfl
      | cons u us => exact Or.inr hsemi
    obtain ⟨k', hk', hmore⟩ := ih hus hus' (by omega) (k := k) (by omega)
    refine ⟨k', hk', ?_⟩
    have hne : t.kind ≠ .eof := by
      intro heq
      rw [heq] at hstart
      cases hstart
    have hgo : ¬ (false || t.kind == .eof) = true := by simpa using hne
    rw [List.append_assoc, statementsUntil]
    show (if (false || t.kind == .eof) = true then pure [] else _ : Reader (List Stmt)) _ = _
    rw [if_neg hgo, bind_of_ok hfirst.attempt, bind_of_ok Clean.advance]
    refine (bind_congr_outcome hmore _).trans ?_
    rw [bind_assoc]
    rfl

/-- One bound is as good as another. -/
lemma statementsUntil_within {c : Cursor} {n k n' k' : Nat} (hn : c.Within n) (hk : c.Within k)
    (hn' : c.Within n') (hk' : c.Within k') (stop : Kind → Bool) :
    statementsUntil (expressionWithin n) stop k c =
      statementsUntil (expressionWithin n') stop k' c := by
  obtain ⟨ss, c₁, hrun, hread⟩ :=
    Unbounded.stops_statementsUntil Unbounded.agrees_expressionWithin stop hn hk
  obtain ⟨ss', c₂, hrun', hread'⟩ :=
    Unbounded.stops_statementsUntil Unbounded.agrees_expressionWithin stop hn' hk'
  rw [hrun, Set.singleton_eq_singleton_iff, Prod.mk.injEq, Option.some.injEq] at hrun'
  obtain ⟨rfl, rfl⟩ := hrun'
  rw [hread, hread']

/-- A program that ends in a semicolon is read in front of any tokens, and they are read as if they
were all. -/
lemma program_append (hlast : last.kind = .eof) {p q : Program} (h : Derives ts p)
    (hsemi : (ts.getLastD last).kind = .semicolon) {c : Cursor}
    (hrest : program ⟨rest, last, faults⟩ = .ok q c) :
    program ⟨ts ++ rest, last, faults⟩ = .ok ⟨p.statements ++ q.statements⟩ c := by
  have hsentences : Sentences (firstKind rest .eof) ts p.statements :=
    Sentences.of_semicolon h hsemi
  have hlength : (ts ++ rest).length = ts.length + rest.length := List.length_append
  have hevery : ReadsEvery last faults (expressionWithin (ts ++ rest).length)
      (ts ++ rest).length := readsEvery_expressionWithin hlast _
  obtain ⟨k, hk, hread⟩ := statementsUntil_append hlast hevery hsentences (Or.inr hsemi)
    (Nat.le_of_eq hlength.symm) (Nat.le_of_eq hlength.symm)
  have hyields : Yields program ⟨rest, last, faults⟩ q c := hrest
  rw [program, yields_get] at hyields
  obtain ⟨ss, c₁, hss, hq⟩ := yields_bind hyields
  obtain ⟨rfl, rfl⟩ := yields_pure hq
  have hsame : statementsUntil (expressionWithin (ts ++ rest).length) (fun _ => false) k
      ⟨rest, last, faults⟩ = .ok ss c₁ := by
    rw [← (hss : _ = _)]
    exact statementsUntil_within ⟨hlast, by rw [hlength]; exact Nat.le_add_left _ _⟩ ⟨hlast, hk⟩
      ⟨hlast, Nat.le_refl _⟩ ⟨hlast, Nat.le_refl _⟩ _
  rw [bind_of_ok hsame] at hread
  exact bind_of_ok hread

end Reader

lemma Cursor.later_ofString (n : Nat) (text : String) :
    (Cursor.ofString text).later n =
      ⟨(Scanner.ofString text).tokens.1.map (Token.later n),
        (Scanner.ofString text).tokens.2.later n, #[]⟩ := by
  rw [Cursor.later]
  exact congrArg (Cursor.mk _ _) Array.map_empty

/-- Parsing is compositional at semicolons. Take any text that is read without a fault and whose
last token is a semicolon, and any other text whatsoever. The two texts one behind the other are
read as the statements of the first and then those of the second, and the faults are those of the
second, where all lines that come from the second are later by the number of line feeds in the
first. -/
theorem Program.read_append (a b : String) (ha : (Program.read a).2 = [])
    (hsemi : (Scanner.ofString a).tokens.1.getLast?.map Token.kind = some .semicolon) :
    Program.read (a ++ b) =
      (⟨(Program.read a).1.statements ++
          ((Program.read b).1.relabel (.later (lineFeeds a.toList))).statements⟩,
        (Program.read b).2.map (SyntaxFault.later (lineFeeds a.toList))) := by
  have hderives : Grammar.Derives (Scanner.ofString a).tokens.1 (Program.read a).1 :=
    parse_eq_ok_iff_derives.1 (parse_eq_ok_iff.2 (Prod.ext rfl ha))
  have hlast : ((Scanner.ofString b).tokens.2.later (lineFeeds a.toList)).kind = .eof :=
    Scanner.kind_last_tokens _
  have hend : ((Scanner.ofString a).tokens.1.getLastD
      ((Scanner.ofString b).tokens.2.later (lineFeeds a.toList))).kind = .semicolon := by
    obtain ⟨t, ht, hkind⟩ := Option.map_eq_some_iff.1 hsemi
    rw [List.getLastD_eq_getLast?, ht]
    exact hkind
  obtain ⟨q, c, -, hb⟩ := Unbounded.stops_program (c := Cursor.ofString b)
    (Scanner.kind_last_tokens _)
  -- the second text is read where the first ends as it is read alone, but for the lines
  have hlater : Reader.program
      ⟨(Scanner.ofString b).tokens.1.map (Token.later (lineFeeds a.toList)),
        (Scanner.ofString b).tokens.2.later (lineFeeds a.toList), #[]⟩ =
      .ok (q.relabel (.later (lineFeeds a.toList))) (c.later (lineFeeds a.toList)) := by
    have hshifts := Reader.shifts_program (n := lineFeeds a.toList) (Cursor.ofString b)
    rw [Cursor.later_ofString, hb] at hshifts
    exact hshifts
  have hboth : Reader.program (Cursor.ofString (a ++ b)) =
      .ok ⟨(Program.read a).1.statements ++ (q.relabel (.later (lineFeeds a.toList))).statements⟩
        (c.later (lineFeeds a.toList)) := by
    rw [Cursor.ofString, Scanner.tokens_ofString_append a b hsemi]
    exact Reader.program_append hlast hderives hend hlater
  have hreadb : Program.read b = (q, c.faults.toList) := by
    rw [Program.read, Cursor.program, hb]
  rw [Program.read, Cursor.program, hboth, hreadb]
  exact Prod.ext rfl Array.toList_map

/-- Behind a text of two lines stands one that starts like the rest of another expression, with a
string that has no end. -/
theorem Program.read_append_of_broken :
    Program.read ("let x = 1;\nx;\n" ++ "+ else\n\"") =
      (⟨(Program.read "let x = 1;\nx;\n").1.statements ++
          ((Program.read "+ else\n\"").1.relabel (.later 2)).statements⟩,
        [.noExpression .plus 3, .noExpression .kwElse 3]) := by
  have happend := Program.read_append "let x = 1;\nx;\n" "+ else\n\"" rfl (by decide +kernel)
  have hfeeds : lineFeeds "let x = 1;\nx;\n".toList = 2 := by decide
  have hfaults : (Program.read "+ else\n\"").2 =
      [.noExpression .plus 1, .noExpression .kwElse 1] := by
    decide +kernel
  rw [happend, hfeeds, hfaults]
  rfl

end Bhasha
