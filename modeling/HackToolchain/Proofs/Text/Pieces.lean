import Mathlib.Data.List.Basic

/-! The pieces of a text between separators. -/

namespace HackToolchain.Text

/-- The pieces between separators lie in the list and hold none. The first is a prefix, because it
grows when a character is put in front. -/
theorem exists_splitOnP {α : Type} (p : α → Bool) (text : List α) : ∃ first rest,
    text.splitOnP p = first :: rest ∧ first <+: text ∧ (∀ piece ∈ rest, piece <:+: text) ∧
      ∀ piece ∈ first :: rest, ∀ c ∈ piece, p c = false := by
  induction text with
  | nil => exact ⟨[], [], by simp⟩
  | cons c text ih =>
    obtain ⟨first, rest, split, front, inside, free⟩ := ih
    have wider : ∀ {piece : List α}, piece <:+: text → piece <:+: c :: text :=
      fun h => h.trans (List.suffix_cons c text).isInfix
    rw [List.splitOnP_cons_eq_if_modifyHead, split]
    by_cases sep : p c
    · refine ⟨[], first :: rest, by rw [if_pos sep], List.nil_prefix, ?_, ?_⟩
      · exact List.forall_mem_cons.mpr
          ⟨wider front.isInfix, fun piece h => wider (inside piece h)⟩
      · exact List.forall_mem_cons.mpr ⟨by simp, free⟩
    · obtain ⟨freeFirst, freeRest⟩ := List.forall_mem_cons.mp free
      refine ⟨c :: first, rest, by rw [if_neg sep, List.modifyHead_cons],
        List.cons_prefix_cons.mpr ⟨rfl, front⟩, fun piece h => wider (inside piece h), ?_⟩
      exact List.forall_mem_cons.mpr
        ⟨List.forall_mem_cons.mpr ⟨by simpa using sep, freeFirst⟩, freeRest⟩

theorem not_mem_of_mem_splitOn {α : Type} [BEq α] [LawfulBEq α] {sep : α} {text piece : List α}
    (h : piece ∈ text.splitOn sep) : sep ∉ piece := by
  obtain ⟨first, rest, split, -, -, free⟩ := exists_splitOnP (· == sep) text
  rw [List.splitOn_eq_splitOnP, split] at h
  intro inside
  simpa using free piece h sep inside

/-- A text with a separator is divided at the last one. -/
theorem exists_append_last {α : Type} {sep : α} {text : List α} (h : sep ∈ text) :
    ∃ front back, text = front ++ sep :: back ∧ sep ∉ back := by
  obtain ⟨back, front, same, free⟩ := List.eq_append_cons_of_mem (List.mem_reverse.mpr h)
  refine ⟨front.reverse, back.reverse, ?_, by simpa using free⟩
  rw [← List.reverse_inj, same]
  simp

end HackToolchain.Text
