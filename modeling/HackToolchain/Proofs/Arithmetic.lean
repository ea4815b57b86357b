import HackToolchain.Proofs.Assembly.Bounds
import HackToolchain.Proofs.Lowering.LabelText
import HackToolchain.Proofs.Lowering.Spelling
import HackToolchain.Proofs.Machine.Bounds

/-! The numbers that the assembler and the processor count with stay words, for every source and
for everything that is asked of a processor with the assembled program. -/

namespace HackToolchain

/-! ### Sources at the limits -/

/-- An instruction that refers to a symbol of its own, with the number of its line. -/
def freshSymbol (k : Nat) : Nat × Instruction :=
  (k + 1, .address (.symbol (Lowering.numbered "v" k)))

/-- The text of the instruction, with the number of its line. -/
def freshLine (k : Nat) : Nat × List Char :=
  (k + 1, (Line.instruction (freshSymbol k).2).text.toList)

/-- A source of instructions that each refer to a symbol of their own. -/
def freshSymbols (n : Nat) : String :=
  unlines ((List.range n).map fun k => (Line.instruction (freshSymbol k).2).text)

theorem legible_freshSymbol (k : Nat) : (Line.instruction (freshSymbol k).2).Legible :=
  isSymbol_numbered k (by decide) (by decide)

theorem plain_freshSymbol (k : Nat) : (Line.instruction (freshSymbol k).2).Plain :=
  Line.plain_symbol (legible_freshSymbol k)

theorem read_freshLine (k : Nat) :
    Line.read (freshLine k).2 = .ok (.instruction (freshSymbol k).2) := by
  have read := Line.read_text (legible_freshSymbol k)
  exact read

theorem drop_range {α : Type} (f : Nat → α) {k n : Nat} (h : k < n) :
    ((List.range n).map f).drop k = f k :: ((List.range n).map f).drop (k + 1) := by
  rw [List.drop_eq_getElem_cons (by simpa using h)]
  simp

theorem numbered_range {keep : List Char → Bool} {line : Nat → List Char}
    (kept : ∀ k, keep (line k)) (n : Nat) : Text.numbered keep ((List.range n).map line) =
      (List.range n).map fun k => (k + 1, line k) := by
  induction n with
  | zero => rfl
  | succ n ih =>
    rw [List.range_succ, List.map_append, List.map_append, ← ih]
    simp [Text.numbered, List.zipIdx_append, kept, Nat.add_comm 1]

theorem sourceLines_freshSymbols (n : Nat) :
    Layout.sourceLines (freshSymbols n) = (List.range n).map freshLine := by
  have clean : ∀ k, Text.clean (Line.instruction (freshSymbol k).2).text.toList =
      (freshLine k).2 :=
    fun k => (plain_freshSymbol k).clean
  have kept : ∀ k, (! (freshLine k).2.isEmpty) = true := by
    intro k
    rw [Bool.not_eq_true', List.isEmpty_eq_false_iff]
    exact (plain_freshSymbol k).1
  rw [freshSymbols, sourceLines_unlines, List.map_map]
  · simp only [Function.comp_def, clean]
    exact numbered_range kept n
  · rw [List.forall_mem_map]
    exact fun k _ => (plain_freshSymbol k).feed_not_mem

/-- The first pass takes in as many instructions as the ROM has room for. -/
theorem exists_reached_layout {k n : Nat} (most : k ≤ n) (fits : k ≤ Layout.capacity) :
    ∃ layout, Layout.Reached (freshSymbols n) layout (((List.range n).map freshLine).drop k) ∧
      layout.code.toList = (List.range k).map freshSymbol ∧ layout.symbols = {} := by
  induction k with
  | zero =>
    refine ⟨{}, ?_, rfl, rfl⟩
    rw [List.drop_zero, ← sourceLines_freshSymbols]
    exact .start
  | succ k ih =>
    obtain ⟨layout, reached, code, none⟩ := ih (by omega) (by omega)
    rw [drop_range freshLine most] at reached
    have size : layout.code.size = k := by
      rw [← Array.length_toList, code, List.length_map, List.length_range]
    have added : layout.addText (freshLine k).1 (freshLine k).2 =
        .ok { layout with code := layout.code.push (freshSymbol k) } := by
      rw [Layout.addText, read_freshLine]
      exact if_pos (by omega)
    refine ⟨_, reached.next added, ?_, none⟩
    rw [Array.toList_push, code, List.range_succ, List.map_append]
    rfl

theorem exists_layout {n : Nat} (fits : n ≤ Layout.capacity) :
    ∃ layout, Layout.ofSource (freshSymbols n) = .ok layout ∧
      layout.code.toList = (List.range n).map freshSymbol ∧ layout.symbols = {} := by
  obtain ⟨layout, reached, code, none⟩ := exists_reached_layout le_rfl fits
  refine ⟨layout, ?_, code, none⟩
  rw [reached.ofSource_eq, List.drop_eq_nil_of_le (by simp)]
  rfl

/-- The second pass gives as many variables a cell as there are addresses. -/
theorem exists_reached_assembly {k n : Nat} (fits : n ≤ Layout.capacity) (most : k ≤ n)
    (few : 16 + k ≤ Platform.maxAddress + 1) :
    ∃ assembly,
      Assembly.Reached (freshSymbols n) assembly (((List.range n).map freshSymbol).drop k) ∧
      assembly.symbols.nextVariable = 16 + k ∧
      ∀ j ≥ k, assembly.symbols.get? (Lowering.numbered "v" j) = none := by
  induction k with
  | zero =>
    obtain ⟨layout, first, code, none⟩ := exists_layout fits
    refine ⟨{ symbols := layout.symbols }, ?_, ?_, fun j _ => ?_⟩
    · rw [List.drop_zero, ← code]
      exact .start first
    · rw [none]
      rfl
    · rw [none]
      simp [SymbolTable.get?, Lowering.unfixed_numbered]
  | succ k ih =>
    obtain ⟨assembly, reached, next, unbound⟩ := ih (by omega) (by omega)
    rw [drop_range freshSymbol most] at reached
    obtain ⟨here, after⟩ := SymbolTable.resolve_of_unbound (unbound k le_rfl)
    have encoded : encodeAddress (assembly.symbols.resolve (Lowering.numbered "v" k)).1 =
        .ok (BitVec.ofNat 16 (16 + k)) := by
      rw [here, next]
      exact if_pos (by omega)
    have added : assembly.add (freshSymbol k).2 =
        .ok ⟨(assembly.symbols.resolve (Lowering.numbered "v" k)).2,
          assembly.words.push (BitVec.ofNat 16 (16 + k))⟩ := by
      rw [Assembly.add, SymbolTable.encode_eq, freshSymbol, Instruction.encode, encoded]
      rfl
    refine ⟨_, reached.next added, ?_, fun j later => ?_⟩
    · show (assembly.symbols.resolve _).2.nextVariable = 16 + (k + 1)
      rw [after, next]
      omega
    · have different : Lowering.numbered "v" k ≠ Lowering.numbered "v" j := by
        intro same
        have numbers := congrArg Lowering.number? same
        rw [Lowering.number?_numbered, Lowering.number?_numbered, Option.some.injEq] at numbers
        omega
      show (assembly.symbols.resolve _).2.get? _ = none
      rw [SymbolTable.get?_resolve, if_neg different]
      exact unbound j (by omega)

/-! ### All counters -/

/-- Neither pass of the assembler counts past a word: it stops with an error at an instruction that
has no address, and at a variable whose cell has none. A program that is assembled has room in the
ROM, and the processor that it is loaded in stays inside of its bounds. -/
theorem counters_fit (source : String) :
    (∀ layout rest, Layout.Reached source layout rest → layout.code.size < 2 ^ 16 ∧
      ∀ number text later i, rest = (number, text) :: later →
        Line.read text = .ok (.instruction i) → layout.code.size + 1 = 2 ^ 16 →
          assemble source = .error ⟨number, .romFull⟩) ∧
    (∀ assembly rest, Assembly.Reached source assembly rest →
      (∀ name, (assembly.symbols.resolve name).2.nextVariable < 2 ^ 16) ∧
      ∀ number name later, rest = (number, .address (.symbol name)) :: later →
        assembly.symbols.get? name = none → assembly.symbols.nextVariable = 2 ^ 15 →
          assemble source = .error ⟨number, .addressTooLarge (2 ^ 15)⟩) ∧
    ∀ image, assemble source = .ok image → image.size ≤ 65535 ∧
      ∀ requests cpu, cpu = (Cpu.load image).after requests →
        cpu.Carries image ∧ (cpu.next?.isSome → cpu.pc + 1 < 2 ^ 16) ∧ cpu.AccessesCells ∧
        ∀ budget, ∃ n ≤ budget, (cpu.run budget).2 = cpu.after (List.replicate n .step) := by
  refine ⟨fun layout rest reached => ⟨?_, ?_⟩, fun assembly rest reached => ⟨?_, ?_⟩, ?_⟩
  · have size := reached.bounded.size
    unfold Layout.capacity at size
    omega
  · rintro number text later i rfl read full
    have size : layout.code.size = Layout.capacity := by
      unfold Layout.capacity
      omega
    exact reached.assemble_romFull read size
  · intro name
    have next := assembly.symbols.nextVariable_resolve_le name
    have small := reached.bounded.cells
    unfold Platform.maxAddress at small
    omega
  · rintro number name later rfl unbound full
    exact reached.assemble_addressTooLarge unbound full
  · intro image assembled
    have fits : image.size ≤ Layout.capacity := size_le_of_assemble assembled
    refine ⟨fits, ?_⟩
    rintro requests cpu rfl
    have carries := (Cpu.Carries.load image).after fits requests
    exact ⟨carries, carries.next_lt fits, Cpu.accessesCells _, Cpu.exists_run_eq _⟩

/-- The program of four instructions that stores 7 in a variable. -/
def storingImage : Image := ⟨#[7, 0xEC10, 16, 0xE308]⟩

/-- Both limits are met, and a processor stands before its last instruction. -/
theorem counters_fit_freshSymbols :
    assemble (freshSymbols 65536) = .error ⟨65536, .romFull⟩ ∧
    assemble (freshSymbols 32753) = .error ⟨32753, .addressTooLarge 32768⟩ ∧
    assemble "@7\nD=A\n@x\nM=D" = .ok storingImage ∧
    ∃ cpu, cpu = (Cpu.load storingImage).after [.poke 0xFFFF 1, .run 2, .step] ∧
      cpu.next? = some 0xE308 ∧ cpu.Carries storingImage ∧ cpu.pc + 1 < 2 ^ 16 ∧
      cpu.AccessesCells := by
  refine ⟨?_, ?_, ?_⟩
  · obtain ⟨layout, reached, code, -⟩ : ∃ layout, Layout.Reached (freshSymbols 65536) layout _ ∧
        layout.code.toList = (List.range 65535).map _ ∧ layout.symbols = {} :=
      exists_reached_layout (by omega) le_rfl
    rw [drop_range _ (by omega)] at reached
    have full : layout.code.size + 1 = 2 ^ 16 := by
      rw [← Array.length_toList, code, List.length_map, List.length_range]
      omega
    exact ((counters_fit _).1 layout _ reached).2 _ _ _ (freshSymbol 65535).2 rfl
      (read_freshLine 65535) full
  · have fits : 32753 ≤ Layout.capacity := by
      unfold Layout.capacity
      omega
    obtain ⟨assembly, reached, next, unbound⟩ : ∃ assembly,
        Assembly.Reached (freshSymbols 32753) assembly _ ∧
          assembly.symbols.nextVariable = 16 + 32752 ∧
          ∀ j ≥ 32752, assembly.symbols.get? (Lowering.numbered "v" j) = none :=
      exists_reached_assembly fits (by omega) le_rfl
    rw [drop_range _ (by omega)] at reached
    exact ((counters_fit _).2.1 assembly _ reached).2 _ _ _ rfl (unbound 32752 le_rfl)
      (by omega)
  · have assembles : assemble "@7\nD=A\n@x\nM=D" = .ok storingImage :=
      assemble_eq_ok_iff.mpr ⟨[.instruction (.address (.literal 7)),
        .instruction (.compute "D" "A" ""), .instruction (.address (.symbol "x")),
        .instruction (.compute "M" "D" "")], by rfl, ⟨by decide, by decide, by decide⟩, by rfl⟩
    have stands : ((Cpu.load storingImage).after
        [.poke 0xFFFF 1, .run 2, .step]).next? = some 0xE308 := by rfl
    obtain ⟨-, bounds⟩ := (counters_fit _).2.2 _ assembles
    obtain ⟨carries, next, cells, -⟩ := bounds [.poke 0xFFFF 1, .run 2, .step] _ rfl
    exact ⟨assembles, _, rfl, stands, carries, next (by rw [stands]; rfl), cells⟩

end HackToolchain
