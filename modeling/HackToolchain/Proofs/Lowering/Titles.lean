import HackToolchain.Proofs.Lowering.Blocks
import Mathlib.Data.List.Basic

/-! The titles of the blocks of a program. The block of a command has the text of the command as its
title, and no command has the text that names the bootstrap code or the closing loop, so that a
program has each of these once at most. -/

namespace HackToolchain

namespace Command

theorem prefix_intercalate (word : String) (rest : List String) :
    word.toList <+: (" ".intercalate (word :: rest)).toList := by
  cases rest with
  | nil => simp
  | cons next rest =>
    rw [String.intercalate_cons_cons, String.toList_append, String.toList_append,
      List.append_assoc]
    exact List.prefix_append _ _

/-- The first word of a command tells its text from the titles of the other blocks. -/
theorem exists_first_word (c : Command) : ∃ word rest, c.words = word :: rest ∧
    ¬ word.toList <+: "bootstrap".toList ∧ ¬ word.toList <+: "end program".toList := by
  cases c with
  | operator op => exact ⟨op.mnemonic, [], rfl, by cases op <;> decide, by cases op <;> decide⟩
  | access op => exact ⟨op.keyword, _, rfl, by cases op <;> decide, by cases op <;> decide⟩
  | label | goto | ifGoto | function | call | ret => exact ⟨_, _, rfl, by decide, by decide⟩

theorem text_ne (c : Command) : c.text ≠ "bootstrap" ∧ c.text ≠ "end program" := by
  obtain ⟨word, rest, words, first, last⟩ := exists_first_word c
  have front : word.toList <+: c.text.toList := by
    rw [text, words]
    exact prefix_intercalate word rest
  exact ⟨fun same => first (same ▸ front), fun same => last (same ▸ front)⟩

theorem titles_of_mapM {entries : List (Nat × Command)} {blocks : List Block}
    (h : entries.mapM numberedBlock = .ok blocks) :
    blocks.map Block.title = (entries.map (·.2)).map text := by
  induction entries generalizing blocks with
  | nil =>
    cases h
    rfl
  | cons entry rest ih =>
    obtain ⟨block, back, here, later, rfl⟩ := mapM_cons_eq_ok.mp h
    rw [List.map_cons, List.map_cons, List.map_cons, ih later, (block_eq_ok.mp here).2]

end Command

namespace Program

variable {commands : List Command} {options : Options} {program : Program}

theorem titles (h : Program.ofCommands commands options = .ok program) :
    program.blocks.map Block.title =
      (if options.bootstrap then ["bootstrap"] else []) ++ commands.map Command.text ++
        (if options.terminate then ["end program"] else []) := by
  obtain ⟨blocks, translated, whole⟩ := Program.blocks_of_session h
  have middle : blocks.map Block.title = commands.map Command.text := by
    rw [Command.titles_of_mapM translated, Command.map_snd_numberFrom]
  have first : (Session.firstBlocks options 0).map Block.title =
      if options.bootstrap then ["bootstrap"] else [] := by
    rw [Session.firstBlocks]
    split
    all_goals rfl
  have last : ∀ number, (Session.lastBlocks options number).map Block.title =
      if options.terminate then ["end program"] else [] := by
    intro number
    rw [Session.lastBlocks]
    split
    all_goals rfl
  rw [whole, List.map_append, List.map_append, first, middle, last]

/-- The bootstrap code and the closing loop stand in a program once if its options ask for them, and
else not at all. -/
theorem count_titles (h : Program.ofCommands commands options = .ok program) :
    (program.blocks.map Block.title).count "bootstrap" = (if options.bootstrap then 1 else 0) ∧
      (program.blocks.map Block.title).count "end program" =
        (if options.terminate then 1 else 0) := by
  have absent : ∀ title, (∀ c : Command, c.text ≠ title) →
      (commands.map Command.text).count title = 0 := by
    intro title other
    rw [List.count_eq_zero]
    intro inside
    obtain ⟨c, -, same⟩ := List.mem_map.mp inside
    exact other c same
  rw [titles h]
  simp only [List.count_append, absent _ fun c => c.text_ne.1, absent _ fun c => c.text_ne.2]
  constructor
  all_goals
    split_ifs
    all_goals decide

end Program

end HackToolchain
