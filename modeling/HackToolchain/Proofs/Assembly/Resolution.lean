import HackToolchain.Assembly.Assemble
import Mathlib.Data.List.Basic

/-! The address of every symbol of a program and the word of every instruction, read off the lines
of the whole program: no table, no order of passes. A label stands for the number of instructions
before it, and the remaining symbols for cells in the order of their first use. -/

namespace HackToolchain

def Line.label? : Line → Option String
  | label name => some name
  | instruction _ => none

/-- The symbol that an instruction refers to. -/
def Instruction.symbol? : Instruction → Option String
  | address (.symbol name) => some name
  | _ => none

theorem encodeAddress_eq_ok {address : Nat} {word : Word} : encodeAddress address = .ok word ↔
    address ≤ Platform.maxAddress ∧ word = BitVec.ofNat 16 address := by
  rw [encodeAddress]
  split
  · next fits => simp [fits, eq_comm]
  · next large => simp [large]

/-- The word of an instruction when symbols have the addresses that `resolve` gives. -/
def Instruction.encode (resolve : String → Nat) : Instruction → Except Defect Word
  | address (.literal value) => encodeAddress value
  | address (.symbol name) => encodeAddress (resolve name)
  | compute dest comp jump => Mnemonic.encode dest comp jump

/-- The symbols without a fixed address, each once, in the order of their first use. -/
def freeSymbols (fixed? : String → Option Nat) (code : List Instruction) : List String :=
  ((code.filterMap Instruction.symbol?).filter fun name => (fixed? name).isNone).eraseDups

namespace Lines

def code (lines : List Line) : List Instruction := lines.filterMap Line.instruction?

/-- The number of instructions, which is the place that the lines take in the ROM. -/
def size (lines : List Line) : Nat := (code lines).length

def declared (lines : List Line) : List String := lines.filterMap Line.label?

/-- The number of instructions before the declaration of a label. -/
def labelAddress? : List Line → String → Option Nat
  | [], _ => none
  | .label other :: rest, name => if other = name then some 0 else labelAddress? rest name
  | .instruction _ :: rest, name => (labelAddress? rest name).map (· + 1)

/-- The address of a symbol that is predefined or declared. -/
def fixed? (lines : List Line) (name : String) : Option Nat :=
  (predefinedSymbols.lookup name).or (labelAddress? lines name)

/-- The variables of a program in the order of their cells. -/
def variableNames (lines : List Line) : List String := freeSymbols (fixed? lines) (code lines)

/-- The address of a symbol. -/
def address (lines : List Line) (name : String) : Nat :=
  (fixed? lines name).getD (Platform.variableBase + (variableNames lines).idxOf name)

/-- Every label is declared once and not predefined, and the instructions fit in the ROM. -/
structure Placeable (lines : List Line) : Prop where
  nodup : (declared lines).Nodup
  unfixed : ∀ name ∈ declared lines, predefinedSymbols.lookup name = none
  fits : size lines ≤ Layout.capacity

/-! ### Lines in a row -/

@[simp] theorem code_nil : code [] = [] := rfl

@[simp] theorem size_nil : size [] = 0 := rfl

@[simp] theorem code_append (front back : List Line) :
    code (front ++ back) = code front ++ code back := by
  simp [code]

@[simp] theorem size_append (front back : List Line) :
    size (front ++ back) = size front + size back := by
  simp [size]

@[simp] theorem declared_append (front back : List Line) :
    declared (front ++ back) = declared front ++ declared back := by
  simp [declared]

@[simp] theorem size_instruction (i : Instruction) (rest : List Line) :
    size (.instruction i :: rest) = size rest + 1 := rfl

@[simp] theorem size_label (name : String) (rest : List Line) :
    size (.label name :: rest) = size rest := rfl

@[simp] theorem code_instruction (i : Instruction) (rest : List Line) :
    code (.instruction i :: rest) = i :: code rest := rfl

@[simp] theorem code_label (name : String) (rest : List Line) :
    code (.label name :: rest) = code rest := rfl

@[simp] theorem declared_label (name : String) (rest : List Line) :
    declared (.label name :: rest) = name :: declared rest := rfl

@[simp] theorem declared_instruction (i : Instruction) (rest : List Line) :
    declared (.instruction i :: rest) = declared rest := rfl

/-! ### Labels -/

theorem labelAddress?_eq_none {lines : List Line} {name : String} :
    labelAddress? lines name = none ↔ name ∉ declared lines := by
  fun_induction labelAddress? lines name with
  | case1 => simp [declared]
  | case2 rest name => simp
  | case3 other rest name different ih => simp [ih, Ne.symm different]
  | case4 i rest name ih => simp [ih]

theorem labelAddress?_append (front back : List Line) (name : String) :
    labelAddress? (front ++ back) name =
      (labelAddress? front name).or ((labelAddress? back name).map (· + size front)) := by
  induction front with
  | nil => simp [labelAddress?]
  | cons line front ih =>
    cases line with
    | label other =>
      simp only [List.cons_append, labelAddress?, size_label]
      split
      · rfl
      · exact ih
    | instruction i =>
      simp only [List.cons_append, labelAddress?, size_instruction, ih]
      cases labelAddress? front name <;> cases labelAddress? back name <;> simp [Nat.add_assoc]

/-- A label that no line before declares has the address of what follows. -/
theorem labelAddress?_label {front : List Line} {name : String} (back : List Line)
    (h : name ∉ declared front) :
    labelAddress? (front ++ .label name :: back) name = some (size front) := by
  rw [labelAddress?_append, labelAddress?_eq_none.mpr h]
  simp [labelAddress?]

theorem fixed?_of_predefined {lines : List Line} {name : String} {cell : Nat}
    (h : predefinedSymbols.lookup name = some cell) : fixed? lines name = some cell := by
  rw [fixed?, h, Option.some_or]

theorem fixed?_eq_none {lines : List Line} {name : String} :
    fixed? lines name = none ↔ predefinedSymbols.lookup name = none ∧ name ∉ declared lines := by
  rw [fixed?, Option.or_eq_none_iff, labelAddress?_eq_none]

theorem address_of_predefined {lines : List Line} {name : String} {cell : Nat}
    (h : predefinedSymbols.lookup name = some cell) : address lines name = cell := by
  rw [address, fixed?_of_predefined h, Option.getD_some]

/-- In a program that can be placed, a label has the number of instructions before it. -/
theorem Placeable.address_label {front back : List Line} {name : String}
    (h : Placeable (front ++ .label name :: back)) :
    address (front ++ .label name :: back) name = size front := by
  have once := h.nodup
  rw [declared_append, declared_label, List.nodup_append] at once
  have absent : name ∉ declared front := fun before => once.2.2 name before name (by simp) rfl
  have unfixed := h.unfixed name (by simp)
  rw [address, fixed?, unfixed, Option.none_or, labelAddress?_label back absent, Option.getD_some]

/-! ### One line more -/

/-- A line can follow: a label must be new, an instruction must find room. -/
def Addable (lines : List Line) : Line → Prop
  | .label name => fixed? lines name = none
  | .instruction _ => size lines < Layout.capacity

theorem placeable_nil : Placeable [] := ⟨by simp [declared], by simp [declared], by simp⟩

theorem placeable_snoc {lines : List Line} {line : Line} :
    Placeable (lines ++ [line]) ↔ Placeable lines ∧ Addable lines line := by
  cases line with
  | label name =>
    have single : declared [Line.label name] = [name] := rfl
    constructor
    · rintro ⟨nodup, unfixed, fits⟩
      rw [declared_append, single, List.nodup_append] at nodup
      refine ⟨⟨nodup.1, fun other hOther => unfixed other (by simp [hOther]), by simpa using fits⟩,
        fixed?_eq_none.mpr ⟨unfixed name (by simp [single]), fun before => ?_⟩⟩
      exact nodup.2.2 name before name (by simp) rfl
    · rintro ⟨⟨nodup, unfixed, fits⟩, new⟩
      obtain ⟨newFixed, newLabel⟩ := fixed?_eq_none.mp new
      refine ⟨?_, fun other hOther => ?_, by simpa using fits⟩
      · rw [declared_append, single, List.nodup_append]
        refine ⟨nodup, by simp, fun other before last hLast => ?_⟩
        obtain rfl := List.mem_singleton.mp hLast
        exact ne_of_mem_of_not_mem before newLabel
      · rw [declared_append, single, List.mem_append, List.mem_singleton] at hOther
        rcases hOther with before | rfl
        · exact unfixed other before
        · exact newFixed
  | instruction i =>
    have none : declared [Line.instruction i] = [] := rfl
    constructor
    · rintro ⟨nodup, unfixed, fits⟩
      rw [declared_append, none, List.append_nil] at nodup unfixed
      have more : size lines + 1 ≤ Layout.capacity := by simpa using fits
      exact ⟨⟨nodup, unfixed, by omega⟩, more⟩
    · rintro ⟨⟨nodup, unfixed, fits⟩, room⟩
      have more : size lines + 1 ≤ Layout.capacity := room
      refine ⟨?_, ?_, by simpa using more⟩ <;> rw [declared_append, none, List.append_nil]
      · exact nodup
      · exact unfixed

end Lines

end HackToolchain
