import HackToolchain.Proofs.Assembly.Passes

/-! The counters of the assembler stay words. Both passes keep them below a limit, and stop with an
error at the line that would pass it. -/

namespace HackToolchain

/-! ### The first pass -/

namespace Layout

/-- The states of the first pass over a source: the layout of the lines before, and the lines that
are left. -/
inductive Reached (source : String) : Layout → List (Nat × List Char) → Prop
  | start : Reached source {} (sourceLines source)
  | next {layout after : Layout} {number : Nat} {text : List Char}
      {rest : List (Nat × List Char)} (before : Reached source layout ((number, text) :: rest))
      (added : layout.addText number text = .ok after) : Reached source after rest

/-- The ROM has room for the instructions, and no variable has a cell. -/
structure Bounded (layout : Layout) : Prop where
  size : layout.code.size ≤ capacity
  unallocated : layout.symbols.variableCount = 0

variable {source : String} {layout after : Layout} {number : Nat} {text : List Char}
  {rest : List (Nat × List Char)} {line : Line} {defect : Defect}

theorem Bounded.add (h : layout.Bounded) (added : layout.add number line = .ok after) :
    after.Bounded := by
  cases line with
  | label name =>
    obtain ⟨symbols, defined, rfl⟩ := Except.map_eq_ok.mp added
    unfold SymbolTable.define at defined
    split at defined
    · cases defined
    · cases defined
      exact ⟨h.size, h.unallocated⟩
  | instruction i =>
    rw [Layout.add] at added
    split at added
    · next room =>
      cases added
      refine ⟨?_, h.unallocated⟩
      rw [Array.size_push]
      exact room
    · cases added

theorem Reached.bounded (h : Reached source layout rest) : layout.Bounded := by
  induction h with
  | start => exact ⟨Nat.zero_le _, rfl⟩
  | next before added ih =>
    obtain ⟨line, -, added⟩ := Except.bind_eq_ok.mp added
    exact ih.add added

/-- From every state on, the pass is the fold over the lines that are left. -/
theorem Reached.ofSource_eq (h : Reached source layout rest) :
    ofSource source = rest.foldlM (fun layout (number, text) =>
      atLine number (layout.addText number text)) layout := by
  induction h with
  | start => rfl
  | next before added ih =>
    rw [ih, List.foldlM_cons]
    dsimp only
    rw [added]
    rfl

theorem reached_of_ofSource (h : ofSource source = .ok layout) : Reached source layout [] := by
  refine foldlM_invariant (P := Reached source) ?_ .start h
  rintro layout ⟨number, text⟩ rest after before added
  exact before.next (atLine_eq_ok.mp added)

theorem Reached.assemble_eq_error (h : Reached source layout ((number, text) :: rest))
    (fails : layout.addText number text = .error defect) :
    assemble source = .error ⟨number, defect⟩ := by
  have first : ofSource source = .error ⟨number, defect⟩ := by
    rw [h.ofSource_eq, List.foldlM_cons]
    dsimp only
    rw [fails]
    rfl
  rw [assemble, Assembly.ofSource, first]
  rfl

/-- An instruction that does not fit in the ROM is an error. -/
theorem Reached.assemble_romFull {i : Instruction}
    (h : Reached source layout ((number, text) :: rest))
    (read : Line.read text = .ok (.instruction i)) (full : layout.code.size = capacity) :
    assemble source = .error ⟨number, .romFull⟩ := by
  apply h.assemble_eq_error
  rw [addText, read]
  show layout.add number (.instruction i) = .error .romFull
  rw [add, full, if_neg (Nat.lt_irrefl _)]

end Layout

/-! ### Variables -/

namespace SymbolTable

variable {table after : SymbolTable} {name : String} {i : Instruction} {word : Word}

theorem resolve_of_unbound (unbound : table.get? name = none) :
    (table.resolve name).1 = table.nextVariable ∧
      (table.resolve name).2.nextVariable = table.nextVariable + 1 := by
  rw [resolve, unbound]
  exact ⟨rfl, rfl⟩

theorem resolve_of_bound {address : Nat} (bound : table.get? name = some address) :
    table.resolve name = (address, table) := by
  rw [resolve, bound]

theorem nextVariable_resolve_le (table : SymbolTable) (name : String) :
    (table.resolve name).2.nextVariable ≤ table.nextVariable + 1 := by
  cases bound : table.get? name with
  | none => exact (resolve_of_unbound bound).2.le
  | some address =>
    rw [resolve_of_bound bound]
    exact Nat.le_succ _

/-- A new variable is only kept if its cell has an address. -/
theorem nextVariable_encode_le (small : table.nextVariable ≤ Platform.maxAddress + 1)
    (encoded : table.encode i = .ok (word, after)) :
    after.nextVariable ≤ Platform.maxAddress + 1 := by
  rw [encode_eq] at encoded
  obtain ⟨word, found, same⟩ := Except.map_eq_ok.mp encoded
  cases same
  match i, found with
  | .address (.literal value), _ | .compute dest comp jump, _ => exact small
  | .address (.symbol name), found =>
    show (table.resolve name).2.nextVariable ≤ Platform.maxAddress + 1
    have fits : (table.resolve name).1 ≤ Platform.maxAddress := (encodeAddress_eq_ok.mp found).1
    cases bound : table.get? name with
    | none =>
      obtain ⟨here, next⟩ := resolve_of_unbound bound
      rw [here] at fits
      rw [next]
      exact Nat.succ_le_succ fits
    | some address =>
      rw [resolve_of_bound bound]
      exact small

end SymbolTable

/-! ### The second pass -/

namespace Assembly

/-- The states of the second pass over a source: the assembly of the instructions before, and the
instructions that are left. -/
inductive Reached (source : String) : Assembly → List (Nat × Instruction) → Prop
  | start {layout : Layout} (first : Layout.ofSource source = .ok layout) :
      Reached source { symbols := layout.symbols } layout.code.toList
  | next {assembly after : Assembly} {number : Nat} {i : Instruction}
      {rest : List (Nat × Instruction)} (before : Reached source assembly ((number, i) :: rest))
      (added : assembly.add i = .ok after) : Reached source after rest

/-- The ROM has room for the words, and all variables have cells with an address. -/
structure Bounded (assembly : Assembly) (rest : List (Nat × Instruction)) : Prop where
  size : assembly.words.size + rest.length ≤ Layout.capacity
  cells : assembly.symbols.nextVariable ≤ Platform.maxAddress + 1

variable {source : String} {assembly after : Assembly} {number : Nat} {i : Instruction}
  {rest : List (Nat × Instruction)} {defect : Defect}

theorem Bounded.add (h : assembly.Bounded ((number, i) :: rest))
    (added : assembly.add i = .ok after) : after.Bounded rest := by
  obtain ⟨⟨word, symbols⟩, encoded, rfl⟩ := Except.map_eq_ok.mp added
  have size := h.size
  rw [List.length_cons] at size
  refine ⟨?_, SymbolTable.nextVariable_encode_le h.cells encoded⟩
  show (assembly.words.push word).size + rest.length ≤ Layout.capacity
  rw [Array.size_push]
  omega

theorem Reached.bounded (h : Reached source assembly rest) : assembly.Bounded rest := by
  induction h with
  | @start layout first =>
    obtain ⟨size, unallocated⟩ := (Layout.reached_of_ofSource first).bounded
    refine ⟨?_, ?_⟩
    · simpa using size
    · show Platform.variableBase + layout.symbols.variableCount ≤ Platform.maxAddress + 1
      rw [unallocated]
      decide
  | next before added ih => exact ih.add added

theorem Reached.ofSource_eq (h : Reached source assembly rest) :
    ofSource source = ofCode assembly rest := by
  induction h with
  | start first =>
    rw [ofSource, first]
    exact ofLayout_eq _
  | next before added ih =>
    rw [ih, ofCode, List.foldlM_cons]
    dsimp only
    rw [added]
    rfl

theorem reached_of_ofSource (h : ofSource source = .ok assembly) :
    Reached source assembly [] := by
  obtain ⟨layout, first, second⟩ := Except.bind_eq_ok.mp h
  rw [ofLayout_eq] at second
  refine foldlM_invariant (P := Reached source) ?_ (.start first) second
  rintro assembly ⟨number, i⟩ rest after before added
  exact before.next (atLine_eq_ok.mp added)

theorem Reached.assemble_eq_error (h : Reached source assembly ((number, i) :: rest))
    (fails : assembly.add i = .error defect) : assemble source = .error ⟨number, defect⟩ := by
  rw [assemble, h.ofSource_eq, ofCode, List.foldlM_cons]
  dsimp only
  rw [fails]
  rfl

/-- A variable whose cell has no address is an error. -/
theorem Reached.assemble_addressTooLarge {name : String}
    (h : Reached source assembly ((number, .address (.symbol name)) :: rest))
    (unbound : assembly.symbols.get? name = none)
    (full : assembly.symbols.nextVariable = Platform.maxAddress + 1) :
    assemble source = .error ⟨number, .addressTooLarge (Platform.maxAddress + 1)⟩ := by
  apply h.assemble_eq_error
  obtain ⟨here, -⟩ := SymbolTable.resolve_of_unbound unbound
  have large : encodeAddress (Platform.maxAddress + 1) =
      .error (.addressTooLarge (Platform.maxAddress + 1)) :=
    if_neg (Nat.not_succ_le_self _)
  rw [add, SymbolTable.encode_eq, Instruction.encode, here, full, large]
  rfl

end Assembly

theorem size_le_of_assemble {source : String} {image : Image} (h : assemble source = .ok image) :
    image.size ≤ Layout.capacity := by
  obtain ⟨assembly, runs, rfl⟩ := Except.map_eq_ok.mp h
  exact (Assembly.reached_of_ofSource runs).bounded.size

end HackToolchain
