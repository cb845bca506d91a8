import Bhasha.Proofs.Token.Scanning
import Bhasha.Proofs.Tree.Completeness

/-!
The parser decides the grammar.

A text is read without a fault exactly if the grammar derives its tokens, and then the tree that
was read is the tree of the derivation. As reading is a function, a text has at most one tree.
-/

namespace Bhasha

open Grammar Reader

instance : Forward Reader.program := by
  unfold Reader.program
  infer_instance

namespace Program

variable {text : String} {p : Program} {as : List Token}

lemma read_eq_of_clean {as' : List Token}
    (h : Clean (Scanner.ofString text).tokens.2 #[] Reader.program
      (Scanner.ofString text).tokens.1 p as') : Program.read text = (p, []) := by
  have hok : Reader.program (Cursor.ofString text) =
    .ok p ⟨as', (Scanner.ofString text).tokens.2, #[]⟩ := h
  rw [Program.read, Cursor.program, hok]

lemma clean_of_read (h : (Program.read text).2 = []) :
    ∃ as', Clean (Scanner.ofString text).tokens.2 #[] Reader.program
      (Scanner.ofString text).tokens.1 (Program.read text).1 as' := by
  rcases hread : Reader.program (Cursor.ofString text) with ⟨p, c⟩ | ⟨i, c⟩
  · rw [Program.read, Cursor.program, hread] at h ⊢
    have hleads := Forward.leads_of_ok hread
    obtain ⟨as', last, faults⟩ := c
    obtain rfl : last = (Scanner.ofString text).tokens.2 := hleads.last
    obtain rfl : faults = #[] := Array.toList_eq_nil_iff.1 h
    exact ⟨as', hread⟩
  · rw [Program.read, Cursor.program, hread] at h
    exact absurd h.symm (Forward.leads_of_error hread).2

lemma parse_eq_ok_iff : Program.parse text = .ok p ↔ Program.read text = (p, []) := by
  rw [Program.parse]
  rcases Program.read text with ⟨q, _ | ⟨fault, faults⟩⟩ <;> simp

/-- A text is the program that the grammar derives from its tokens. -/
lemma parse_eq_ok_iff_derives :
    Program.parse text = .ok p ↔ Derives (Scanner.ofString text).tokens.1 p := by
  rw [parse_eq_ok_iff]
  constructor
  · intro h
    obtain ⟨as', hclean⟩ := clean_of_read (congrArg Prod.snd h)
    rw [h] at hclean
    exact derives_of_clean (Scanner.kind_last_tokens _) hclean
      fun t => Scanner.kind_ne_eof_of_mem_tokens
  · intro h
    exact read_eq_of_clean (clean_of_derives (Scanner.kind_last_tokens _) h)

/-- The parser accepts the texts whose tokens the grammar derives, and it builds the tree of the
derivation. -/
theorem faultless_iff_derives (text : String) :
    ((Program.read text).2 = [] ↔ ∃ p, Derives (Scanner.ofString text).tokens.1 p) ∧
      ∀ p, Derives (Scanner.ofString text).tokens.1 p → (Program.read text).1 = p := by
  have hread : ∀ p, Derives (Scanner.ofString text).tokens.1 p → Program.read text = (p, []) :=
    fun p h => read_eq_of_clean (clean_of_derives (Scanner.kind_last_tokens _) h)
  refine ⟨⟨fun h => ?_, fun ⟨p, h⟩ => ?_⟩, fun p h => ?_⟩
  · obtain ⟨as', hclean⟩ := clean_of_read h
    exact ⟨_, derives_of_clean (Scanner.kind_last_tokens _) hclean
      fun t => Scanner.kind_ne_eof_of_mem_tokens⟩
  · rw [hread p h]
  · rw [hread p h]

/-- Operators of every level, a call and an index make a program; a binding without its sign makes
none. -/
theorem faultless_iff_derives_of_levels :
    (∃ p, Derives (Scanner.ofString "!a == -b + c * d[0](e) < 2").tokens.1 p) ∧
      ¬ ∃ p, Derives (Scanner.ofString "let a 2;").tokens.1 p := by
  have hfaults : (Program.read "let a 2;").2 ≠ [] := by decide +kernel
  exact ⟨(faultless_iff_derives _).1.1 rfl, fun h => hfaults ((faultless_iff_derives _).1.2 h)⟩

end Program

end Bhasha
