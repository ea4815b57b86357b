import HackToolchain.Proofs.Assembly.Passes

/-! When lines in the language of the assembler become words: they read back from their text unless
a literal is too large for a word, and each has a word if its literal or the address of its symbol
can be loaded by one instruction. -/

namespace HackToolchain

/-! ### Spelling -/

theorem Mnemonic.known_iff {dest comp jmp : String} : Known dest comp jmp ↔
    (computations.lookup comp).isSome ∧ (destinations.lookup dest).isSome ∧
      (jumps.lookup jmp).isSome := by
  simp only [Known, encode_eq_ok, Option.isSome_iff_exists]
  constructor
  · rintro ⟨_, c, d, j, hComp, hDest, hJump, -⟩
    exact ⟨⟨c, hComp⟩, ⟨d, hDest⟩, ⟨j, hJump⟩⟩
  · rintro ⟨⟨c, hComp⟩, ⟨d, hDest⟩, ⟨j, hJump⟩⟩
    exact ⟨_, c, d, j, hComp, hDest, hJump, rfl⟩

instance (dest comp jmp : String) : Decidable (Mnemonic.Known dest comp jmp) :=
  decidable_of_iff _ Mnemonic.known_iff.symm

namespace Line

/-- A line whose names are symbols and whose mnemonics are known. -/
def WellSpelled : Line → Prop
  | instruction (.address (.literal _)) => True
  | instruction (.address (.symbol name)) => isSymbol name.toList
  | instruction (.compute dest comp jmp) => Mnemonic.Known dest comp jmp
  | label name => isSymbol name.toList

instance : DecidablePred WellSpelled
  | instruction (.address (.literal _)) => inferInstanceAs (Decidable True)
  | instruction (.address (.symbol name)) => inferInstanceAs (Decidable (isSymbol name.toList))
  | instruction (.compute dest comp jmp) =>
    inferInstanceAs (Decidable (Mnemonic.Known dest comp jmp))
  | label name => inferInstanceAs (Decidable (isSymbol name.toList))

theorem WellSpelled.plain {line : Line} (h : line.WellSpelled) : line.Plain := by
  match line with
  | instruction (.address (.literal value)) => exact plain_literal value
  | instruction (.address (.symbol name)) => exact plain_symbol h
  | instruction (.compute dest comp jmp) => exact plain_compute h
  | label name => exact plain_label h

theorem Legible.wellSpelled {line : Line} (h : line.Legible) : line.WellSpelled := by
  match line with
  | instruction (.address (.literal value)) => exact trivial
  | instruction (.address (.symbol name)) | instruction (.compute dest comp jmp) | label name =>
    exact h

/-- The only lines that do not read back are those with a literal that fits in no word. -/
theorem WellSpelled.read_text {line read : Line} (h : line.WellSpelled) :
    Line.read line.text.toList = .ok read ↔ read = line ∧
      ∀ value, line = .instruction (.address (.literal value)) → value < 65536 := by
  by_cases legible : line.Legible
  · rw [Line.read_text legible]
    constructor
    · rintro ⟨⟩
      refine ⟨rfl, ?_⟩
      rintro value rfl
      exact legible
    · rintro ⟨rfl, -⟩
      rfl
  · match line with
    | instruction (.address (.literal value)) =>
      have large : ¬ value < 65536 := legible
      rw [read_text_literal, if_neg large]
      constructor
      · rintro ⟨⟩
      · rintro ⟨-, small⟩
        exact absurd (small value rfl) large
    | instruction (.address (.symbol name)) => exact absurd h legible
    | instruction (.compute dest comp jmp) => exact absurd h legible
    | label name => exact absurd h legible

end Line

theorem mapM_read_text {lines read : List Line} (h : ∀ line ∈ lines, line.WellSpelled) :
    (lines.map fun line => line.text.toList).mapM Line.read = .ok read ↔ read = lines ∧
      ∀ value, .instruction (.address (.literal value)) ∈ lines → value < 65536 := by
  induction lines generalizing read with
  | nil => simp [pure, Except.pure, eq_comm]
  | cons line lines ih =>
    obtain ⟨here, later⟩ := List.forall_mem_cons.mp h
    rw [List.map_cons, mapM_cons_eq_ok]
    constructor
    · rintro ⟨first, rest, readFirst, readRest, rfl⟩
      obtain ⟨rfl, small⟩ := here.read_text.mp readFirst
      obtain ⟨rfl, smallRest⟩ := (ih later).mp readRest
      refine ⟨rfl, fun value inside => ?_⟩
      rcases List.mem_cons.mp inside with same | inside
      · exact small value same.symm
      · exact smallRest value inside
    · rintro ⟨rfl, small⟩
      exact ⟨line, lines, here.read_text.mpr ⟨rfl, fun value same => small value (by simp [same])⟩,
        (ih later).mpr ⟨rfl, fun value inside => small value (by simp [inside])⟩, rfl⟩

/-! ### Literals and references -/

def Line.literal? : Line → Option Nat
  | instruction (.address (.literal value)) => some value
  | _ => none

namespace Lines

variable {lines : List Line}

def literals (lines : List Line) : List Nat := lines.filterMap Line.literal?

/-- The symbols that the instructions refer to. -/
def references (lines : List Line) : List String := (code lines).filterMap Instruction.symbol?

theorem mem_literals {value : Nat} :
    value ∈ literals lines ↔ .instruction (.address (.literal value)) ∈ lines := by
  rw [literals, List.mem_filterMap]
  constructor
  · rintro ⟨line, inside, same⟩
    match line with
    | .instruction (.address (.literal other)) =>
      cases same
      exact inside
  · intro inside
    exact ⟨_, inside, rfl⟩

theorem mem_code {i : Instruction} : i ∈ code lines ↔ .instruction i ∈ lines := by
  rw [code, List.mem_filterMap]
  constructor
  · rintro ⟨line, inside, same⟩
    cases line with
    | instruction other =>
      cases same
      exact inside
    | label name => cases same
  · intro inside
    exact ⟨_, inside, rfl⟩

theorem mem_references {name : String} :
    name ∈ references lines ↔ .instruction (.address (.symbol name)) ∈ lines := by
  rw [references, List.mem_filterMap, ← mem_code]
  constructor
  · rintro ⟨i, inside, same⟩
    match i with
    | .address (.symbol other) =>
      cases same
      exact inside
  · intro inside
    exact ⟨_, inside, rfl⟩

theorem exists_encodeAddress {value : Nat} :
    (∃ word, encodeAddress value = .ok word) ↔ value ≤ Platform.maxAddress := by
  simp [encodeAddress_eq_ok]

/-- Well-spelled lines have words if and only if their literals and the addresses of their symbols
are small enough. -/
theorem exists_words_iff (spelled : ∀ line ∈ lines, line.WellSpelled) :
    (∃ words, (code lines).mapM (Instruction.encode (address lines)) = .ok words) ↔
      (∀ value ∈ literals lines, value ≤ Platform.maxAddress) ∧
        ∀ name ∈ references lines, address lines name ≤ Platform.maxAddress := by
  rw [exists_mapM_eq_ok]
  constructor
  · intro all
    constructor
    · intro value inside
      exact exists_encodeAddress.mp (all _ (mem_code.mpr (mem_literals.mp inside)))
    · intro name inside
      exact exists_encodeAddress.mp (all _ (mem_code.mpr (mem_references.mp inside)))
  · rintro ⟨values, names⟩ i inside
    have line := mem_code.mp inside
    match i with
    | .address (.literal value) =>
      exact exists_encodeAddress.mpr (values value (mem_literals.mpr line))
    | .address (.symbol name) =>
      exact exists_encodeAddress.mpr (names name (mem_references.mpr line))
    | .compute dest comp jmp => exact spelled _ line

/-! ### Addresses in range -/

theorem exists_of_labelAddress? {name : String} {address : Nat}
    (h : labelAddress? lines name = some address) :
    ∃ front back, lines = front ++ .label name :: back ∧ size front = address := by
  induction lines generalizing address with
  | nil => cases h
  | cons line rest ih =>
    cases line with
    | label other =>
      rw [labelAddress?] at h
      split at h
      · next same =>
        cases h
        exact ⟨[], rest, by rw [same, List.nil_append], rfl⟩
      · obtain ⟨front, back, rfl, rfl⟩ := ih h
        exact ⟨.label other :: front, back, rfl, rfl⟩
    | instruction i =>
      rw [labelAddress?, Option.map_eq_some_iff] at h
      obtain ⟨before, found, rfl⟩ := h
      obtain ⟨front, back, rfl, rfl⟩ := ih found
      exact ⟨.instruction i :: front, back, rfl, rfl⟩

theorem predefined_le {name : String} {cell : Nat}
    (h : predefinedSymbols.lookup name = some cell) : cell ≤ Platform.maxAddress := by
  have all : ∀ entry ∈ predefinedSymbols, entry.2 ≤ Platform.maxAddress := by decide
  obtain ⟨before, after, split, -⟩ := List.lookup_eq_some_iff.mp h
  exact all (name, cell) (by simp [split])

theorem nodup_eraseDups (names : List String) : names.eraseDups.Nodup := by
  induction names using List.reverseRecOn with
  | nil => simp
  | append_singleton names name ih =>
    rw [eraseDups_snoc]
    split
    · exact ih
    · next new =>
      rw [List.nodup_append]
      refine ⟨ih, by simp, fun other before last hLast => ?_⟩
      obtain rfl := List.mem_singleton.mp hLast
      exact ne_of_mem_of_not_mem (List.mem_eraseDups.mp before) new

theorem eraseDups_of_nodup {names : List String} (h : names.Nodup) : names.eraseDups = names := by
  induction names using List.reverseRecOn with
  | nil => rfl
  | append_singleton names name ih =>
    obtain ⟨front, -, new⟩ := List.nodup_append.mp h
    have absent : name ∉ names := fun inside =>
      new name inside name (List.mem_singleton_self _) rfl
    rw [eraseDups_snoc, if_neg absent, ih front]

theorem mem_variableNames {name : String} :
    name ∈ variableNames lines ↔ name ∈ references lines ∧ fixed? lines name = none := by
  rw [variableNames, mem_freeSymbols, references, List.mem_filterMap]

theorem address_variableNames {name : String} (inside : name ∈ variableNames lines) :
    address lines name = 16 + (variableNames lines).idxOf name := by
  rw [address, (mem_variableNames.mp inside).2, Option.getD_none]
  rfl

/-- Variables have cells of their own. -/
theorem address_variableNames_inj {name other : String} (inside : name ∈ variableNames lines)
    (among : other ∈ variableNames lines) :
    address lines name = address lines other ↔ name = other := by
  rw [address_variableNames inside, address_variableNames among, Nat.add_left_cancel_iff,
    List.idxOf_inj inside]

/-- The cells of the variables are below a bound if and only if there are not too many of them. -/
theorem variables_lt_iff {count : Nat} :
    (∀ name ∈ variableNames lines, address lines name < 16 + count) ↔
      (variableNames lines).length ≤ count := by
  constructor
  · intro all
    by_contra many
    have position : count < (variableNames lines).length := Nat.lt_of_not_le many
    have inside := List.getElem_mem position
    have last := all _ inside
    have nodup : (variableNames lines).Nodup := nodup_eraseDups _
    rw [address_variableNames inside, nodup.idxOf_getElem _ position] at last
    exact absurd last (Nat.lt_irrefl _)
  · intro few name inside
    have := List.idxOf_lt_length_of_mem inside
    rw [address_variableNames inside]
    omega

theorem variables_le_iff :
    (∀ name ∈ variableNames lines, address lines name ≤ Platform.maxAddress) ↔
      (variableNames lines).length ≤ 32752 := by
  rw [← variables_lt_iff]
  exact forall₂_congr fun name _ => Nat.lt_succ_iff.symm

theorem references_le_iff (placeable : Placeable lines) :
    (∀ name ∈ references lines, address lines name ≤ Platform.maxAddress) ↔
      (∀ front name back, lines = front ++ .label name :: back → name ∈ references lines →
        size front ≤ Platform.maxAddress) ∧ (variableNames lines).length ≤ 32752 := by
  rw [← variables_le_iff]
  constructor
  · intro all
    refine ⟨fun front name back split referenced => ?_, fun name inside => ?_⟩
    · subst split
      rw [← placeable.address_label]
      exact all name referenced
    · exact all name (mem_variableNames.mp inside).1
  · rintro ⟨labels, cells⟩ name referenced
    cases fixed : fixed? lines name with
    | none => exact cells name (mem_variableNames.mpr ⟨referenced, fixed⟩)
    | some cell =>
      rw [address, fixed, Option.getD_some]
      rcases Option.or_eq_some_iff.mp fixed with predefined | ⟨-, found⟩
      · exact predefined_le predefined
      · obtain ⟨front, back, split, rfl⟩ := exists_of_labelAddress? found
        exact labels front name back split referenced

end Lines

end HackToolchain
