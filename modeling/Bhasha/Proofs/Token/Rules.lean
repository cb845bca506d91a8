import Bhasha.Proofs.Token.Spelling

/-!
The rules of the scanner.

`Rule` lists the pieces of text that make a token, or a run of blanks, and the kind that each of
them is of. It says nothing of what stands behind a piece. A text can begin with several such
pieces: `==` begins with `=`, and a string that is not closed can be cut anywhere. The scanner takes
the longest, and that is matched by one rule only. If no rule matches at all, it takes one
character.
-/

namespace Bhasha

/-- A piece of text of a kind, by itself. -/
inductive Rule : List Char → Kind → Prop
  /-- A word is of the kind that it spells. -/
  | word {cs : List Char} : IsWord cs → Rule cs (Kind.ofWord (String.ofList cs))
  /-- One or more digits. -/
  | numeral {cs : List Char} : IsNumeral cs → Rule cs .int
  /-- A string without its closing quotation mark. -/
  | unclosed {cs : List Char} : (∀ c ∈ cs, c ≠ '"') → Rule ('"' :: cs) .str
  /-- A string. -/
  | closed {cs : List Char} : (∀ c ∈ cs, c ≠ '"') → Rule ('"' :: (cs ++ ['"'])) .str
  /-- A sign. -/
  | sign {k : Kind} : k.isSign → Rule k.name.toList k
  /-- One or more blanks. -/
  | blanks {cs : List Char} : cs ≠ [] → (∀ c ∈ cs, isBlank c) → Rule cs .blank

lemma Rule.kind_ne_eof {cs : List Char} {k : Kind} (h : Rule cs k) : k ≠ .eof := by
  cases h with
  | word hw => exact Kind.ofWord_ne _ rfl
  | sign hk => exact Kind.ne_of_isSign hk rfl
  | numeral | unclosed | closed | blanks => decide

/-- What makes a string. -/
lemma Rule.of_str {cs : List Char} {k : Kind} (h : Rule cs k) (hk : k = .str) :
    ∃ ds closing, cs = '"' :: (ds ++ closing) ∧ (∀ d ∈ ds, d ≠ '"') ∧
      (closing = ['"'] ∨ closing = []) := by
  cases h with
  | word hw => exact absurd hk (Kind.ofWord_ne _ rfl)
  | sign hsign => exact absurd hk (Kind.ne_of_isSign hsign rfl)
  | numeral | blanks => cases hk
  | @unclosed ds hds => exact ⟨ds, [], by simp, hds, Or.inr rfl⟩
  | @closed ds hds => exact ⟨ds, ['"'], rfl, hds, Or.inl rfl⟩

/-- A run of blanks starts with one. -/
lemma Rule.of_blank {cs : List Char} {k : Kind} (h : Rule cs k) (hk : k = .blank) :
    ∃ d ds, cs = d :: ds ∧ isBlank d := by
  cases h with
  | word hw => exact absurd hk (Kind.ofWord_ne _ rfl)
  | sign hsign => exact absurd hk (Kind.ne_of_isSign hsign rfl)
  | numeral | unclosed | closed => cases hk
  | blanks hne hblanks =>
    obtain ⟨d, ds, rfl⟩ := List.exists_cons_of_ne_nil hne
    exact ⟨d, ds, rfl, hblanks d (List.mem_cons_self ..)⟩

/-- How a text begins: with the longest piece that a rule matches, which only one does, or else with
one character that makes an illegal token. -/
inductive Begins (text : List Char) : Lexeme → Prop
  | longest {l : Lexeme} : l.text <+: text → Rule l.text l.kind →
      (∀ cs k, cs <+: text → Rule cs k →
        cs.length < l.text.length ∨ cs = l.text ∧ k = l.kind) → Begins text l
  | illegal {c : Char} : [c] <+: text → (∀ cs k, cs <+: text → ¬ Rule cs k) →
      Begins text ⟨.illegal, [c]⟩

namespace Begins

variable {text rest : List Char} {l : Lexeme}

/-- A word is of the kind that it spells: no other rule matches just as much. -/
lemma kind_eq_ofWord (h : Begins text l) (hw : IsWord l.text) :
    l.kind = Kind.ofWord (String.ofList l.text) := by
  cases h with
  | longest hpre _ hlongest =>
    rcases hlongest _ _ hpre (.word hw) with hlt | ⟨-, hk⟩
    · exact absurd hlt (Nat.lt_irrefl _)
    · exact hk.symm
  | illegal hpre hnone => exact absurd (.word hw) (hnone _ _ hpre)

lemma kind_ne {c : Char} (h : Begins (c :: text) l) (hc : isBlank c = false) :
    l.kind ≠ .eof ∧ l.kind ≠ .blank := by
  cases h with
  | longest hpre hrule _ =>
    refine ⟨hrule.kind_ne_eof, fun hblank => ?_⟩
    obtain ⟨d, ds, htext, hd⟩ := hrule.of_blank hblank
    rw [htext] at hpre
    obtain ⟨rfl, -⟩ := List.cons_prefix_cons.1 hpre
    rw [hd] at hc
    cases hc
  | illegal => exact ⟨nofun, nofun⟩

/-- A string runs to its closing quotation mark or to the end of the text. -/
lemma exists_of_str (h : Begins (l.text ++ rest) l) (hk : l.kind = .str) :
    ∃ ds closing, l.text = '"' :: (ds ++ closing) ∧ (∀ d ∈ ds, d ≠ '"') ∧
      (closing = ['"'] ∨ closing = [] ∧ rest = []) := by
  cases h with
  | longest _ hrule hlongest =>
    obtain ⟨ds, closing, htext, hds, hclosing⟩ := hrule.of_str hk
    refine ⟨ds, closing, htext, hds, hclosing.imp id fun hnil => ⟨hnil, ?_⟩⟩
    subst hnil
    rw [htext, List.append_nil] at hlongest
    cases rest with
    | nil => rfl
    | cons d rest =>
      -- one character more would be a string too
      have hrule' : Rule ('"' :: (ds ++ [d])) .str := by
        by_cases hd : d = '"'
        · rw [hd]
          exact .closed hds
        · refine .unclosed fun e he => ?_
          rcases List.mem_append.1 he with he | he
          · exact hds e he
          · rwa [List.mem_singleton.1 he]
      have hpre : '"' :: (ds ++ [d]) <+: '"' :: ds ++ d :: rest := ⟨rest, by simp⟩
      rcases hlongest _ _ hpre hrule' with hlt | ⟨heq, -⟩
      · simp only [List.length_cons, List.length_append] at hlt
        omega
      · simp at heq
  | illegal => cases hk

end Begins

namespace Lexeme

variable {c : Char} {cs ds : List Char} {k : Kind}

/-- The rest of a string, as far as it goes. -/
lemma exists_quoted_eq_append (hds : ∀ d ∈ ds, d ≠ '"') (rest : List Char) :
    ∃ more, quoted (ds ++ rest) = ds ++ more := by
  have hds' : ∀ d ∈ ds, (d != '"') = true := fun d hd => bne_iff_ne.2 (hds d hd)
  rw [quoted, List.takeWhile_append_of_pos hds', List.append_assoc]
  exact ⟨_, rfl⟩

/-- No rule matches more than the scanner cuts, and none matches the same as another kind. -/
lemma first_of_rule (hc : isBlank c = false) (hpre : ds <+: c :: cs) (hrule : Rule ds k) :
    ∃ k' more, first c cs = ⟨k', ds ++ more⟩ ∧ (more = [] → k' = k) ∧ k' ≠ .illegal := by
  cases hrule with
  | word hw =>
    obtain ⟨c', ds, rfl, hstart, hds⟩ := hw
    obtain ⟨rfl, rest, rfl⟩ := List.cons_prefix_cons.1 hpre
    rw [first, if_pos hstart, List.takeWhile_append_of_pos hds]
    refine ⟨_, rest.takeWhile isWordPart, rfl, fun hmore => ?_, Kind.ofWord_ne _ rfl⟩
    rw [hmore, List.append_nil]
  | numeral hw =>
    obtain ⟨c', ds, rfl, hdigit, hds⟩ := hw
    obtain ⟨rfl, rest, rfl⟩ := List.cons_prefix_cons.1 hpre
    have hstart : ¬ isWordStart c' = true := by
      rw [isWordStart_of_isDigit hdigit]
      decide
    rw [first, if_neg hstart, if_pos hdigit, List.takeWhile_append_of_pos hds]
    exact ⟨.int, rest.takeWhile Char.isDigit, rfl, fun _ => rfl, by decide⟩
  | @unclosed ds hds =>
    obtain ⟨rfl, rest, rfl⟩ := List.cons_prefix_cons.1 hpre
    obtain ⟨more, hmore⟩ := exists_quoted_eq_append hds rest
    refine ⟨.str, more, ?_, fun _ => rfl, by decide⟩
    show (⟨.str, '"' :: quoted (ds ++ rest)⟩ : Lexeme) = ⟨.str, '"' :: (ds ++ more)⟩
    rw [hmore]
  | @closed ds hds =>
    obtain ⟨rfl, rest, rfl⟩ := List.cons_prefix_cons.1 hpre
    exact ⟨.str, [], by rw [first_text hds, List.append_nil], fun _ => rfl, by decide⟩
  | sign hk =>
    obtain ⟨rest, hrest⟩ := hpre
    by_cases hlonger : (k = .assign ∨ k = .bang) ∧ rest.head? = some '='
    · -- the longer sign is taken
      obtain ⟨hkind, hhead⟩ := hlonger
      obtain ⟨rest, rfl⟩ := List.head?_eq_some_iff.1 hhead
      rcases hkind with rfl | rfl
      · obtain ⟨rfl, rfl⟩ : '=' = c ∧ '=' :: rest = cs := List.cons.inj hrest
        exact ⟨.eq, ['='], rfl, fun h => absurd h (List.cons_ne_nil _ _), by decide⟩
      · obtain ⟨rfl, rfl⟩ : '!' = c ∧ '=' :: rest = cs := List.cons.inj hrest
        exact ⟨.notEq, ['='], rfl, fun h => absurd h (List.cons_ne_nil _ _), by decide⟩
    · obtain ⟨c', ds, hname, -, hfirst⟩ := first_sign hk fun h hhead => hlonger ⟨h, hhead⟩
      rw [hname, List.cons_append] at hrest
      obtain ⟨rfl, rfl⟩ := List.cons.inj hrest
      exact ⟨k, [], by rw [hfirst, hname, List.append_nil], fun _ => rfl, Kind.ne_of_isSign hk rfl⟩
  | blanks hne hblanks =>
    obtain ⟨b, ds, rfl⟩ := List.exists_cons_of_ne_nil hne
    obtain ⟨rfl, -⟩ := List.cons_prefix_cons.1 hpre
    rw [hblanks b (List.mem_cons_self ..)] at hc
    cases hc

/-- A string that is cut is one by the rules. -/
lemma rule_quoted (cs : List Char) : Rule ('"' :: quoted cs) .str := by
  have hinside : ∀ d ∈ cs.takeWhile (· != '"'), d ≠ '"' := by
    intro d hd
    have hne := List.mem_takeWhile_imp hd
    exact bne_iff_ne.1 hne
  rw [quoted]
  cases hdrop : cs.dropWhile (· != '"') with
  | nil =>
    rw [List.take_nil, List.append_nil]
    exact .unclosed hinside
  | cons d rest =>
    have hd : d = '"' := by
      have hhead := List.head?_dropWhile_not (· != '"') cs
      rw [hdrop] at hhead
      simpa using hhead
    rw [hd]
    exact .closed hinside

lemma rule_sign (c : Char) (cs : List Char) :
    Rule (sign c cs).text (sign c cs).kind ∨ sign c cs = ⟨.illegal, [c]⟩ := by
  have hsign : ∀ {ds : List Char} {k : Kind}, k.isSign → ds = k.name.toList → Rule ds k := by
    rintro ds k hk rfl
    exact .sign hk
  unfold sign
  dsimp only
  split <;> first
    | exact Or.inl (hsign rfl rfl)
    | exact Or.inr rfl
    | (split <;> exact Or.inl (hsign rfl rfl))

/-- What the scanner cuts a rule matches, or else it is one character. -/
lemma rule_first (c : Char) (cs : List Char) :
    Rule (first c cs).text (first c cs).kind ∨ first c cs = ⟨.illegal, [c]⟩ := by
  unfold first
  split
  · rename_i hc
    exact Or.inl (.word ⟨c, _, rfl, hc, fun d hd => List.mem_takeWhile_imp hd⟩)
  · split
    · rename_i hc
      exact Or.inl (.numeral ⟨c, _, rfl, hc, fun d hd => List.mem_takeWhile_imp hd⟩)
    · split
      · rename_i hc
        rw [beq_iff_eq.1 hc]
        exact Or.inl (rule_quoted cs)
      · exact rule_sign c cs

/-- The scanner cuts what a text begins with. -/
lemma begins_first (hc : isBlank c = false) (cs : List Char) : Begins (c :: cs) (first c cs) := by
  rcases rule_first c cs with hrule | hillegal
  · refine .longest (first_text_isPrefix c cs) hrule fun ds k hpre hds => ?_
    obtain ⟨k', more, hfirst, hkind, -⟩ := first_of_rule hc hpre hds
    rw [hfirst]
    cases more with
    | nil => exact Or.inr ⟨by simp, (hkind rfl).symm⟩
    | cons d more => exact Or.inl (by simp)
  · rw [hillegal]
    refine .illegal ⟨cs, rfl⟩ fun ds k hpre hds => ?_
    obtain ⟨k', more, hfirst, -, hne⟩ := first_of_rule hc hpre hds
    rw [hillegal] at hfirst
    exact hne (congrArg Lexeme.kind hfirst).symm

end Lexeme

end Bhasha
