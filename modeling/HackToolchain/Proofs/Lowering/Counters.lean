import HackToolchain.Proofs.Assembly.Renaming
import HackToolchain.Proofs.Lowering.References
import HackToolchain.Proofs.Lowering.SessionLabels
import Mathlib.Data.List.Zip

/-! A program as two sessions translate it that have issued different numbers of labels before. The
two texts differ only in the labels that are made up. These are distinct in each of them, so they
correspond in order, and the assembler gives both texts the same words. -/

namespace HackToolchain

/-! ### Labels paired in order -/

/-- The names of two lists correspond in order, and a name in neither to itself. -/
def Paired (front back : List String) (a b : String) : Prop :=
  (a, b) ∈ front.zip back ∨ a = b ∧ a ∉ front ∧ a ∉ back

section

variable {front back : List String} {a b b' : String}

theorem Paired.swap (h : Paired front back a b) : Paired back front b a := by
  rcases h with inside | ⟨rfl, absent, absent'⟩
  · have swapped := List.mem_map_of_mem (f := Prod.swap) inside
    rw [List.zip_swap] at swapped
    exact .inl swapped
  · exact .inr ⟨rfl, absent', absent⟩

theorem eq_of_mem_zip (nodup : front.Nodup) (first : (a, b) ∈ front.zip back)
    (second : (a, b') ∈ front.zip back) : b = b' := by
  obtain ⟨i, bound, here⟩ := List.mem_iff_getElem.mp first
  obtain ⟨j, bound', there⟩ := List.mem_iff_getElem.mp second
  rw [List.getElem_zip, Prod.mk.injEq] at here there
  obtain rfl : i = j := nodup.getElem_inj_iff.mp (here.1.trans there.1.symm)
  exact here.2.symm.trans there.2

theorem Paired.rightUnique (nodup : front.Nodup) : Relator.RightUnique (Paired front back) := by
  rintro a b b' (first | ⟨rfl, absent, -⟩) (second | ⟨rfl, absent', -⟩)
  · exact eq_of_mem_zip nodup first second
  · exact absurd (List.of_mem_zip first).1 absent'
  · exact absurd (List.of_mem_zip second).1 absent
  · rfl

/-- Distinct names that are not predefined can stand for each other. -/
theorem Paired.renaming (nodup : front.Nodup) (nodup' : back.Nodup)
    (free : ∀ name ∈ front, predefinedSymbols.lookup name = none)
    (free' : ∀ name ∈ back, predefinedSymbols.lookup name = none) :
    Renaming (Paired front back) where
  unique := ⟨fun _ _ _ h h' => rightUnique nodup' h.swap h'.swap, rightUnique nodup⟩
  predefined := by
    rintro a b (inside | ⟨rfl, -⟩)
    · rw [free a (List.of_mem_zip inside).1, free' b (List.of_mem_zip inside).2]
    · rfl

end

/-- Concatenations that correspond do so part by part if the parts have the same lengths. -/
theorem forall₂_of_forall₂_flatMap {α β γ : Type} {R : β → γ → Prop} {f : α → List β}
    {g : α → List γ} {xs ys : List α}
    (lengths : List.Forall₂ (fun x y => (f x).length = (g y).length) xs ys)
    (h : List.Forall₂ R (xs.flatMap f) (ys.flatMap g)) :
    List.Forall₂ (fun x y => List.Forall₂ R (f x) (g y)) xs ys := by
  induction lengths with
  | nil => exact .nil
  | @cons x y xs ys same _ ih =>
    rw [List.flatMap_cons, List.flatMap_cons] at h
    have here := List.forall₂_take_append _ _ _ h
    have later := List.forall₂_drop_append _ _ _ h
    rw [← same, List.take_left] at here
    rw [← same, List.drop_left] at later
    exact .cons here (ih later)

/-! ### Renamed blocks -/

section

variable {R : String → String → Prop}

theorem Line.renamed_refl {lines : List Line}
    (references : ∀ name ∈ Lines.references lines, R name name)
    (declared : ∀ name ∈ Lines.declared lines, R name name) :
    List.Forall₂ (Line.Renamed R) lines lines := by
  refine List.forall₂_same.mpr fun line inside => ?_
  match line with
  | .instruction (.address (.symbol name)) =>
    exact .instruction (.symbol (references name (Lines.mem_references.mpr inside)))
  | .instruction (.address (.literal value)) => exact .instruction (.literal value)
  | .instruction (.compute dest comp jump) => exact .instruction (.compute dest comp jump)
  | .label name => exact .label (declared name (List.mem_filterMap.mpr ⟨_, inside, rfl⟩))

theorem Line.Renamed.compute {dest comp jump : String} : Line.Renamed R
    (.instruction (.compute dest comp jump)) (.instruction (.compute dest comp jump)) :=
  .instruction (.compute dest comp jump)

namespace Lowering

variable (fixed : ∀ name ∈ registers, R name name) {n m : Nat}
include fixed

/-- Lines with no names but registers. -/
theorem renamed_registers {lines : Fragment}
    (references : ∀ name ∈ Lines.references lines, name ∈ registers)
    (declared : Lines.declared lines = []) : List.Forall₂ (Line.Renamed R) lines lines :=
  Line.renamed_refl (fun name inside => fixed name (references name inside)) (by simp [declared])

theorem renamed_comparison (c : Comparison)
    (branch : R (c.branchLabel n) (c.branchLabel m)) (last : R (c.endLabel n) (c.endLabel m)) :
    List.Forall₂ (Line.Renamed R) (c.fragment n) (c.fragment m) := by
  have pops : List.Forall₂ (Line.Renamed R) (popData ++ popThrough "D-M")
      (popData ++ popThrough "D-M") := renamed_registers fixed (by decide) rfl
  have pushes : List.Forall₂ (Line.Renamed R) pushData pushData :=
    renamed_registers fixed (by decide) rfl
  have decides : List.Forall₂ (Line.Renamed R)
      [symbol (c.branchLabel n), jump "D" c.condition, assign "D" (truth (! c.taken))]
      [symbol (c.branchLabel m), jump "D" c.condition, assign "D" (truth (! c.taken))] :=
    .cons (.instruction (.symbol branch)) (.cons .compute (.cons .compute .nil))
  have leaves : List.Forall₂ (Line.Renamed R)
      [symbol (c.endLabel n), jump "0" "JMP", .label (c.branchLabel n), assign "D" (truth c.taken)]
      [symbol (c.endLabel m), jump "0" "JMP", .label (c.branchLabel m),
        assign "D" (truth c.taken)] :=
    .cons (.instruction (.symbol last))
      (.cons .compute (.cons (.label branch) (.cons .compute .nil)))
  exact List.rel_append (List.rel_append (List.rel_append (List.rel_append
    (List.rel_append pops decides) pushes) leaves) pushes) (.cons (.label last) .nil)

theorem renamed_call {name : String} (args : Nat) (callee : R name name)
    (back : R (returnLabel name n) (returnLabel name m)) :
    List.Forall₂ (Line.Renamed R) (call name args n) (call name args m) := by
  have sets := renamed_registers fixed (references_setup args) rfl
  rw [call_eq, call_eq]
  exact List.rel_append (.cons (.instruction (.symbol back)) sets)
    (.cons (.instruction (.symbol callee)) (.cons .compute (.cons (.label back) .nil)))

end Lowering

/-- The lines of a command under two numbers differ in the labels made up for it. -/
theorem Command.renamed_fragment {c : Command} {n m : Nat} {body other : Lowering.Fragment}
    (fixed : ∀ name ∈ Lowering.registers, R name name) (own : ∀ name ∈ c.symbols, R name name)
    (paired :
      List.Forall₂ R ((Session.Step.command c).labels n) ((Session.Step.command c).labels m))
    (h : c.fragment n = .ok body)
    (h' : c.fragment m = .ok other) : List.Forall₂ (Line.Renamed R) body other := by
  have compared : ∀ c : Lowering.Comparison,
      List.Forall₂ R [c.branchLabel n, c.endLabel n] [c.branchLabel m, c.endLabel m] →
        List.Forall₂ (Line.Renamed R) (c.fragment n) (c.fragment m) := by
    rintro c (_ | ⟨branch, _ | ⟨last, -⟩⟩)
    exact Lowering.renamed_comparison fixed c branch last
  have unnumbered : c.fragment n = c.fragment m → (∀ name ∈ c.labels n, name ∈ c.symbols) →
      List.Forall₂ (Line.Renamed R) body other := by
    intro same labels
    cases h.symm.trans (same.trans h')
    refine Line.renamed_refl (fun name inside => ?_) (fun name inside => ?_)
    · rcases references_fragment h inside with register | label | symbol
      · exact fixed name register
      · exact own name (labels name label)
      · exact own name symbol
    · rw [declared_fragment h] at inside
      exact own name (labels name inside)
  cases c with
  | operator op =>
    cases op with
    | eq =>
      cases h
      cases h'
      exact compared .equal paired
    | gt =>
      cases h
      cases h'
      exact compared .greater paired
    | lt =>
      cases h
      cases h'
      exact compared .less paired
    | add | sub | neg | and | or | not => exact unnumbered rfl (fun _ label => nomatch label)
  | call name args =>
    cases h
    cases h'
    obtain _ | ⟨back, -⟩ := paired
    exact Lowering.renamed_call fixed args.toNat (own name (List.mem_singleton.mpr rfl)) back
  | label | function => exact unnumbered rfl (fun _ label => label)
  | access | goto | ifGoto | ret => exact unnumbered rfl (fun _ label => nomatch label)

namespace Session.Step

/-- The symbols that a step brings, other than the labels made up for it. -/
def symbols : Step → List String
  | command c => c.symbols
  | bootstrap => [Platform.entryFunction]
  | endProgram => []

variable {s : Step} {n m : Nat} {block other : Block}

/-- The blocks of a step under two numbers differ in the labels made up for it. -/
theorem renamed_make (fixed : ∀ name ∈ Lowering.registers, R name name)
    (own : ∀ name ∈ s.symbols, R name name)
    (paired : List.Forall₂ R (s.labels n) (s.labels m)) (made : s.make n = .ok block)
    (made' : s.make m = .ok other) :
    other.title = block.title ∧ List.Forall₂ (Line.Renamed R) block.body other.body := by
  cases s with
  | command c =>
    obtain ⟨fragment, title⟩ := Command.block_eq_ok.mp made
    obtain ⟨fragment', title'⟩ := Command.block_eq_ok.mp made'
    exact ⟨title'.trans title.symm, Command.renamed_fragment fixed own paired fragment fragment'⟩
  | bootstrap =>
    cases made
    cases made'
    obtain _ | ⟨back, -⟩ := paired
    have sets : List.Forall₂ (Line.Renamed R)
        ([Lowering.literal Platform.stackBase, Lowering.assign "D" "A"] ++ Lowering.store "SP")
        ([Lowering.literal Platform.stackBase, Lowering.assign "D" "A"] ++ Lowering.store "SP") :=
      Lowering.renamed_registers fixed (by decide) rfl
    exact ⟨rfl, List.rel_append sets
      (Lowering.renamed_call fixed 0 (own _ (List.mem_singleton.mpr rfl)) back)⟩
  | endProgram =>
    cases made
    cases made'
    obtain _ | ⟨loop, -⟩ := paired
    exact ⟨rfl, .cons (.label loop) (.cons (.instruction (.symbol loop)) (.cons .compute .nil))⟩

theorem exists_make (made : s.make n = .ok block) (m : Nat) : ∃ other, s.make m = .ok other := by
  cases s with
  | command c =>
    cases c with
    | access => exact ⟨block, made⟩
    | operator | label | goto | ifGoto | function | call | ret => exact ⟨_, rfl⟩
  | bootstrap | endProgram => exact ⟨_, rfl⟩

theorem wellSpelled_make (named : ∀ c, s = command c → c.Named) (made : s.make n = .ok block) :
    block.WellSpelled := by
  cases s with
  | command c =>
    obtain ⟨fragment, title⟩ := Command.block_eq_ok.mp made
    exact Command.wellSpelled_block (named c rfl) fragment title
  | bootstrap =>
    cases made
    have title : '\n' ∉ "bootstrap".toList := by decide
    exact ⟨title, Lowering.wellSpelled_bootstrap n⟩
  | endProgram =>
    cases made
    have title : '\n' ∉ "end program".toList := by decide
    exact ⟨title, Lowering.wellSpelled_endLoop n⟩

/-- No label that is made up is predefined. -/
theorem unfixed_of_labels {label : String} (h : label ∈ s.labels n) :
    predefinedSymbols.lookup label = none := by
  have compared : ∀ c : Lowering.Comparison, label ∈ [c.branchLabel n, c.endLabel n] →
      predefinedSymbols.lookup label = none := by
    intro c either
    rcases List.mem_pair.mp either with rfl | rfl
    · exact Lowering.unfixed_numbered c.branchStem n
    · exact Lowering.unfixed_numbered c.endStem n
  cases s with
  | command c =>
    cases c with
    | operator op =>
      cases op with
      | eq | gt | lt => exact compared _ h
      | add | sub | neg | and | or | not => cases h
    | call name args =>
      rw [List.mem_singleton.mp h]
      exact Lowering.unfixed_returnLabel name n
    | access | label | goto | ifGoto | function | ret => cases h
  | bootstrap =>
    rw [List.mem_singleton.mp h]
    exact Lowering.unfixed_returnLabel Platform.entryFunction n
  | endProgram =>
    rw [List.mem_singleton.mp h]
    exact Lowering.unfixed_numbered "END_PROGRAM" n

end Session.Step

theorem Block.renamed_lines {block other : Block} (spelled : block.WellSpelled)
    (spelled' : other.WellSpelled) (title : other.title = block.title)
    (body : List.Forall₂ (Line.Renamed R) block.body other.body) :
    List.Forall₂ (SourceLineRenamed R) block.lines other.lines := by
  have comment : ∀ word : String, '\n' ∉ word.toList →
      SourceLineRenamed R ("// " ++ word ++ block.title) ("// " ++ word ++ block.title) := by
    intro word plain
    rw [String.append_assoc]
    apply sourceLineRenamed_comment
    rw [String.toList_append, List.mem_append, not_or]
    exact ⟨plain, spelled.title⟩
  have texts : List.Forall₂ (SourceLineRenamed R) (block.body.map Line.text)
      (other.body.map Line.text) := by
    rw [List.forall₂_map_left_iff, List.forall₂_map_right_iff]
    refine List.forall₂_iff_zip.mpr ⟨body.length_eq, fun inside => ?_⟩
    obtain ⟨among, among'⟩ := List.of_mem_zip inside
    exact (List.forall₂_zip body inside).sourceLine (spelled.body _ among) (spelled'.body _ among')
  rw [lines, lines, title]
  exact List.rel_append (.cons (comment "begin " (by decide)) texts)
    (.cons (comment "end " (by decide)) .nil)

end

/-! ### Renamed programs -/

theorem forall₂_of_map_eq {α β γ : Type} {f : α → γ} {g : β → γ} {xs : List α} {ys : List β}
    (h : xs.map f = ys.map g) : List.Forall₂ (fun x y => f x = g y) xs ys := by
  refine List.forall₂_map_left_iff.mp (List.forall₂_map_right_iff.mp ?_)
  rw [List.forall₂_eq_eq_eq]
  exact h

namespace Session

variable {steps : List Step} {n m : Nat} {blocks : List Block} {p : Product}

theorem exists_make_of_mem_trace (h : p ∈ trace n steps) : ∃ k, p.step.make k = .ok p.block := by
  induction steps generalizing n with
  | nil => cases h
  | cons s rest ih =>
    rw [trace] at h
    rcases s.run_cases n with ⟨block, made, -, run⟩ | ⟨defect, run, -⟩
    · rw [run] at h
      rcases List.mem_cons.mp h with rfl | later
      · exact ⟨n, made⟩
      · exact ih later
    · rw [run] at h
      cases h

/-- Steps that all succeed have a block each. -/
theorem map_step_trace (h : ((steps.mapM Step.session).run.run n).1 = .ok blocks) :
    (trace n steps).map Product.step = steps := by
  induction steps generalizing n blocks with
  | nil => rfl
  | cons s rest ih =>
    obtain ⟨block, later, -, -, run, answered, -⟩ := exists_of_mapM_cons h
    rw [trace, run, List.map_cons, ih answered]

/-- Steps that succeed do so whatever number of labels was issued before, if there is room for
theirs. -/
theorem run_mapM_of_blocks (h : ((steps.mapM Step.session).run.run n).1 = .ok blocks) (m : Nat) :
    (∃ others, (steps.mapM Step.session).run.run m =
      (.ok others, m + steps.countP Step.numbered)) ∨
    limit ≤ m + steps.countP Step.numbered ∧
      (steps.mapM Step.session).run.run m = (.error .numbersSpent, max m (limit - 1)) := by
  refine run_mapM_of_make (fun s inside number => ?_) m
  rw [← map_step_trace h] at inside
  obtain ⟨p, among, rfl⟩ := List.mem_map.mp inside
  obtain ⟨k, made⟩ := exists_make_of_mem_trace among
  exact Step.exists_make made number

/-- The blocks that a session makes for a program if it has issued a number of labels before. -/
def products (commands : List Command) (options : Options) (number : Nat) : List Product :=
  trace number (Request.program commands options).steps

/-- The labels that it makes up in them. -/
def madeUp (commands : List Command) (options : Options) (number : Nat) : List String :=
  (products commands options number).flatMap Product.synthesized

variable {commands : List Command} {options : Options} {name : String}

theorem exists_step_of_madeUp (h : name ∈ madeUp commands options n) :
    ∃ (s : Step) (k : Nat), name ∈ s.labels k := by
  obtain ⟨p, among, inside⟩ := List.mem_flatMap.mp h
  obtain ⟨k, made⟩ := exists_make_of_mem_trace among
  rw [Step.synthesized_of_make made] at inside
  exact ⟨p.step, k, inside⟩

theorem unfixed_of_madeUp (h : name ∈ madeUp commands options n) :
    predefinedSymbols.lookup name = none := by
  obtain ⟨s, k, inside⟩ := exists_step_of_madeUp h
  exact Step.unfixed_of_labels inside

/-- The entry function has no number at its end. -/
theorem entryFunction_not_mem_madeUp : Platform.entryFunction ∉ madeUp commands options n := by
  intro h
  obtain ⟨s, k, inside⟩ := exists_step_of_madeUp h
  have unnumbered : Lowering.number? Platform.entryFunction = none := by decide
  cases unnumbered.symm.trans (Step.number?_of_labels inside)

theorem nodup_madeUp (commands : List Command) (options : Options) (number : Nat) :
    (madeUp commands options number).Nodup :=
  (span_trace (Request.program commands options).steps number).nodup

variable {program other : Program}

theorem blocks_eq_products (h : ((Session.program commands options).run.run n).1 = .ok program) :
    program.blocks = (products commands options n).map Product.block ∧
      (products commands options n).map Product.step =
        (Request.program commands options).steps := by
  have answered := map_blocks_program commands options n
  rw [h] at answered
  exact ⟨blocks_of_mapM answered.symm, map_step_trace answered.symm⟩

/-- The labels of a translation are as many in each block as the steps alone say. -/
theorem length_synthesized (h : ((Session.program commands options).run.run n).1 = .ok program) :
    (products commands options n).map (·.synthesized.length) =
      (Request.program commands options).steps.map Step.labelCount := by
  have counts := congrArg (List.map Step.labelCount) (blocks_eq_products h).2
  rw [List.map_map] at counts
  exact (span_trace _ n).lengths.trans counts

/-- The labels of two translations correspond in each of their blocks. -/
theorem paired_products (h : ((Session.program commands options).run.run n).1 = .ok program)
    (h' : ((Session.program commands options).run.run m).1 = .ok other) :
    List.Forall₂ (fun p q => p.step = q.step ∧
      List.Forall₂ (Paired (madeUp commands options n) (madeUp commands options m))
        p.synthesized q.synthesized)
      (products commands options n) (products commands options m) := by
  have lengths := (length_synthesized h).trans (length_synthesized h').symm
  have steps := forall₂_of_map_eq ((blocks_eq_products h).2.trans (blocks_eq_products h').2.symm)
  have labels : List.Forall₂ (Paired (madeUp commands options n) (madeUp commands options m))
      (madeUp commands options n) (madeUp commands options m) := by
    refine List.forall₂_iff_zip.mpr ⟨?_, fun inside => .inl inside⟩
    rw [madeUp, madeUp, List.length_flatMap, List.length_flatMap, lengths]
  have each := forall₂_of_forall₂_flatMap (forall₂_of_map_eq lengths) labels
  exact List.forall₂_iff_zip.mpr ⟨steps.length_eq, fun inside =>
    ⟨List.forall₂_zip steps inside, List.forall₂_zip each inside⟩⟩

theorem paired_register (register : name ∈ Lowering.registers) :
    Paired (madeUp commands options n) (madeUp commands options m) name name := by
  have predefined := Lowering.registers_predefined name register
  exact .inr ⟨rfl, fun up => predefined (unfixed_of_madeUp up),
    fun up => predefined (unfixed_of_madeUp up)⟩

/-- A step of a program is one of its commands or brings no name but the entry function. -/
theorem command_or_entry {s : Step} (inside : s ∈ (Request.program commands options).steps) :
    (∃ c ∈ commands, s = .command c) ∨
      (∀ c, s ≠ .command c) ∧ ∀ name ∈ s.symbols, name = Platform.entryFunction := by
  simp only [Request.steps, List.mem_append, List.mem_map] at inside
  rcases inside with (boots | ⟨c, among, rfl⟩) | ends
  · split at boots
    · rw [List.mem_singleton.mp boots]
      exact .inr ⟨by simp, fun name inside => List.mem_singleton.mp inside⟩
    · cases boots
  · exact .inl ⟨c, among, rfl⟩
  · split at ends
    · rw [List.mem_singleton.mp ends]
      exact .inr ⟨by simp, by simp [Step.symbols]⟩
    · cases ends

/-- The blocks of a program are made by steps, whose commands are those of the program. -/
theorem exists_make_of_mem_blocks
    (h : ((Session.program commands options).run.run n).1 = .ok program) {block : Block}
    (among : block ∈ program.blocks) :
    ∃ (s : Step) (k : Nat), s.make k = .ok block ∧ ∀ c, s = .command c → c ∈ commands := by
  rw [(blocks_eq_products h).1] at among
  obtain ⟨p, made, rfl⟩ := List.mem_map.mp among
  obtain ⟨k, made'⟩ := exists_make_of_mem_trace made
  refine ⟨p.step, k, made', fun c same => ?_⟩
  rcases command_or_entry (mem_of_mem_trace made) with ⟨own, inside, step⟩ | ⟨none, -⟩
  · cases same.symm.trans step
    exact inside
  · exact absurd same (none c)

end Session

namespace Program

open Session

variable {commands : List Command} {options : Options} {n m : Nat} {program other : Program}

/-- Two translations of one program only differ in the labels that are made up. -/
theorem renamed_lines (named : ∀ c ∈ commands, c.Named)
    (apart : ∀ c ∈ commands, ∀ name ∈ c.symbols,
      name ∉ madeUp commands options n ∧ name ∉ madeUp commands options m)
    (translated : ((Session.program commands options).run.run n).1 = .ok program)
    (translated' : ((Session.program commands options).run.run m).1 = .ok other) :
    List.Forall₂ (SourceLineRenamed
      (Paired (madeUp commands options n) (madeUp commands options m)))
      program.lines other.lines := by
  have paired := paired_products translated translated'
  have blocks : List.Forall₂ (fun p q => List.Forall₂ (SourceLineRenamed
      (Paired (madeUp commands options n) (madeUp commands options m)))
      p.block.lines q.block.lines)
      (products commands options n) (products commands options m) := by
    refine List.forall₂_iff_zip.mpr ⟨paired.length_eq, fun {p q} inside => ?_⟩
    obtain ⟨step, labels⟩ := List.forall₂_zip paired inside
    obtain ⟨among, among'⟩ := List.of_mem_zip inside
    obtain ⟨k, made⟩ := exists_make_of_mem_trace among
    obtain ⟨l, made'⟩ := exists_make_of_mem_trace among'
    rw [Step.synthesized_of_make made, Step.synthesized_of_make made', ← step] at labels
    rw [← step] at made'
    have kind := command_or_entry (mem_of_mem_trace among)
    have own : ∀ name ∈ p.step.symbols,
        Paired (madeUp commands options n) (madeUp commands options m) name name := by
      intro name symbol
      rcases kind with ⟨c, inside, same⟩ | ⟨-, entry⟩
      · rw [same] at symbol
        exact .inr ⟨rfl, apart c inside name symbol⟩
      · rw [entry name symbol]
        exact .inr ⟨rfl, entryFunction_not_mem_madeUp, entryFunction_not_mem_madeUp⟩
    have spelled : ∀ c, p.step = .command c → c.Named := by
      intro c same
      rcases kind with ⟨c', inside, same'⟩ | ⟨none, -⟩
      · cases same.symm.trans same'
        exact named c inside
      · exact absurd same (none c)
    obtain ⟨title, body⟩ :=
      Step.renamed_make (fun _ => paired_register) own labels made made'
    exact Block.renamed_lines (Step.wellSpelled_make spelled made)
      (Step.wellSpelled_make spelled made') title body
  rw [lines, lines, (blocks_eq_products translated).1, (blocks_eq_products translated').1,
    List.flatMap_map, List.flatMap_map]
  exact List.rel_flatMap blocks fun _ _ h => h

/-- A program assembles to the same words, or fails at the same line, whatever number of labels its
session has issued before, if its own symbols are none of those made up for it. Only a session
without room for its numbers does not translate it. -/
theorem assemble_eq_of_counts (named : ∀ c ∈ commands, c.Named)
    (apart : ∀ c ∈ commands, ∀ name ∈ c.symbols,
      name ∉ madeUp commands options n ∧ name ∉ madeUp commands options m)
    (translated : ((Session.program commands options).run.run n).1 = .ok program) :
    (∃ other, ((Session.program commands options).run.run m).1 = .ok other ∧
      (assemble program.text).mapError SourceError.line =
        (assemble other.text).mapError SourceError.line) ∨
    limit ≤ m + (Request.program commands options).steps.countP Step.numbered ∧
      ((Session.program commands options).run.run m).1 = .error .numbersSpent := by
  have answered := map_blocks_program commands options n
  rw [translated] at answered
  have answered' := map_blocks_program commands options m
  rcases run_mapM_of_blocks answered.symm m with ⟨blocks, runs⟩ | ⟨full, runs⟩
  case inr =>
    rw [runs] at answered'
    exact .inr ⟨full, Except.map_eq_error.mp answered'⟩
  rw [runs] at answered'
  obtain ⟨other, translated', -⟩ := Except.map_eq_ok.mp answered'
  have names : Renaming (Paired (madeUp commands options n) (madeUp commands options m)) :=
    Paired.renaming (nodup_madeUp commands options n) (nodup_madeUp commands options m)
      (fun _ => unfixed_of_madeUp) (fun _ => unfixed_of_madeUp)
  exact .inl ⟨other, translated',
    assemble_renamed names (renamed_lines named apart translated translated')⟩

/-- A program with names that are made up under other counts than zero and five. -/
def lookalikeCommands : List Command :=
  [.label "not_equal_2", .access .push .constant 7 "END_EQUAL_0", .operator .eq,
    .access .pop .staticVar 3 "END_EQUAL_0", .ifGoto "NOT_EQUAL_2", .call "f$ret.3" 0, .goto "x",
    .function "f$ret.3" 1]

theorem assemble_eq_of_counts_lookalikes :
    ∃ program other,
      ((Session.program lookalikeCommands {}).run.run 0).1 = .ok program ∧
      ((Session.program lookalikeCommands {}).run.run 5).1 = .ok other ∧
      madeUp lookalikeCommands {} 0 =
        ["NOT_EQUAL_0", "END_EQUAL_0", "f$ret.3$ret.1", "END_PROGRAM_2"] ∧
      madeUp lookalikeCommands {} 5 =
        ["NOT_EQUAL_5", "END_EQUAL_5", "f$ret.3$ret.6", "END_PROGRAM_7"] ∧
      (assemble program.text).mapError SourceError.line =
        (assemble other.text).mapError SourceError.line := by
  obtain ⟨program, translated⟩ :
      ∃ program, ((Session.program lookalikeCommands {}).run.run 0).1 = .ok program := ⟨_, rfl⟩
  obtain ⟨other, translated', same⟩ :=
    (assemble_eq_of_counts (m := 5) (by decide) (by decide) translated).resolve_right
      fun full => absurd full.1 (by decide)
  exact ⟨program, other, translated, translated', by decide, by decide, same⟩

end Program

end HackToolchain
