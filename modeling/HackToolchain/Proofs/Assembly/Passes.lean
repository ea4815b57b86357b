import HackToolchain.Proofs.Assembly.Reading
import HackToolchain.Proofs.Assembly.Resolution
import Mathlib.Data.List.Induction

/-! The two passes of the assembler compute what the lines of the whole program say: the first
binds exactly the labels, and the second gives the variables their cells on the way. Together they
succeed if and only if the lines read, can be placed, and all instructions have a word. -/

namespace HackToolchain

open Lines

/-! ### The first pass -/

/-- A layout made of lines: their instructions in order, and no symbols but their labels. -/
structure Layout.Describes (layout : Layout) (lines : List Line) : Prop where
  code : layout.code.toList.map (·.2) = Lines.code lines
  symbols : ∀ name, layout.symbols.get? name = fixed? lines name
  unallocated : layout.symbols.variableCount = 0

namespace Layout

variable {layout after : Layout} {lines : List Line} {line : Line} {number : Nat}

theorem describes_nil : ({} : Layout).Describes [] where
  code := rfl
  symbols name := by simp [SymbolTable.get?, fixed?, labelAddress?]
  unallocated := rfl

theorem Describes.size_code (h : layout.Describes lines) : layout.code.size = size lines := by
  rw [size, ← h.code, List.length_map, Array.length_toList]

/-- A layout takes a line in if and only if the line can follow those it is made of. -/
theorem Describes.exists_add (h : layout.Describes lines) (number : Nat) :
    (∃ after, layout.add number line = .ok after) ↔ Addable lines line := by
  cases line with
  | label name =>
    simp only [add, Except.map_eq_ok, SymbolTable.define, h.symbols, Addable]
    cases fixed? lines name <;> simp
  | instruction i =>
    simp only [add, h.size_code, Addable]
    split <;> simp_all

theorem Describes.add (h : layout.Describes lines) (added : layout.add number line = .ok after) :
    after.Describes (lines ++ [line]) := by
  have room := (h.exists_add number).mp ⟨after, added⟩
  cases line with
  | label name =>
    obtain ⟨symbols, defined, rfl⟩ := Except.map_eq_ok.mp added
    refine ⟨by simp [h.code], fun other => ?_, ?_⟩
    · obtain ⟨unfixed, absent⟩ := fixed?_eq_none.mp room
      rw [SymbolTable.get?_define defined, h.symbols, h.size_code]
      split
      · next same =>
        subst same
        rw [fixed?, unfixed, Option.none_or, labelAddress?_label [] absent]
      · next different =>
        simp only [fixed?, labelAddress?_append, labelAddress?, if_neg different, Option.map_none,
          Option.or_none]
    · simp only [SymbolTable.define] at defined
      split at defined
      · contradiction
      · cases defined
        exact h.unallocated
  | instruction i =>
    simp only [Layout.add, h.size_code] at added
    rw [if_pos (show size lines < capacity from room)] at added
    cases added
    refine ⟨by simp [h.code], fun other => ?_, h.unallocated⟩
    simp only [h.symbols, fixed?, labelAddress?_append, labelAddress?, Option.map_none,
      Option.or_none]

/-- The first pass over numbered lines. -/
def ofLines (numbered : List (Nat × List Char)) : Except SourceError Layout :=
  numbered.foldlM (fun layout (number, text) => atLine number (layout.addText number text)) {}

theorem describes_ofLines {numbered : List (Nat × List Char)}
    (h : ofLines numbered = .ok layout) :
    ∃ lines, (numbered.map (·.2)).mapM Line.read = .ok lines ∧ layout.Describes lines ∧
      Placeable lines := by
  induction numbered using List.reverseRecOn generalizing layout with
  | nil =>
    cases h
    exact ⟨[], rfl, describes_nil, placeable_nil⟩
  | append_singleton front last ih =>
    obtain ⟨number, text⟩ := last
    obtain ⟨mid, before, added⟩ := foldlM_snoc_eq_ok.mp h
    obtain ⟨lines, reads, describes, placeable⟩ := ih before
    obtain ⟨line, read, added⟩ := Except.bind_eq_ok.mp (atLine_eq_ok.mp added)
    refine ⟨lines ++ [line], ?_, describes.add added,
      placeable_snoc.mpr ⟨placeable, (describes.exists_add number).mp ⟨layout, added⟩⟩⟩
    rw [List.map_append]
    exact mapM_snoc_eq_ok.mpr ⟨lines, line, reads, read, rfl⟩

theorem exists_ofLines {numbered : List (Nat × List Char)} {lines : List Line}
    (reads : (numbered.map (·.2)).mapM Line.read = .ok lines) (placeable : Placeable lines) :
    ∃ layout, ofLines numbered = .ok layout := by
  induction numbered using List.reverseRecOn generalizing lines with
  | nil => exact ⟨{}, rfl⟩
  | append_singleton front last ih =>
    obtain ⟨number, text⟩ := last
    rw [List.map_append] at reads
    obtain ⟨first, line, readsFirst, read, rfl⟩ := mapM_snoc_eq_ok.mp reads
    obtain ⟨placeable, room⟩ := placeable_snoc.mp placeable
    obtain ⟨mid, before⟩ := ih readsFirst placeable
    obtain ⟨others, readsOthers, describes, -⟩ := describes_ofLines before
    cases readsFirst.symm.trans readsOthers
    obtain ⟨after, added⟩ := (describes.exists_add number).mpr room
    exact ⟨after, foldlM_snoc_eq_ok.mpr
      ⟨mid, before, atLine_eq_ok.mpr (Except.bind_eq_ok.mpr ⟨line, read, added⟩)⟩⟩

end Layout

/-! ### The second pass -/

theorem freeSymbols_append (fixed? : String → Option Nat) (front back : List Instruction) :
    ∃ more, freeSymbols fixed? (front ++ back) = freeSymbols fixed? front ++ more := by
  simp only [freeSymbols, List.filterMap_append, List.filter_append, List.eraseDups_append]
  exact ⟨_, rfl⟩

theorem mem_freeSymbols {fixed? : String → Option Nat} {code : List Instruction} {name : String} :
    name ∈ freeSymbols fixed? code ↔
      (∃ i ∈ code, i.symbol? = some name) ∧ fixed? name = none := by
  simp [freeSymbols, List.mem_eraseDups]

theorem eraseDups_snoc (names : List String) (name : String) :
    (names ++ [name]).eraseDups =
      if name ∈ names then names.eraseDups else names.eraseDups ++ [name] := by
  rw [List.eraseDups_append]
  split <;> simp_all [List.removeAll, List.eraseDups_cons]

/-- A free symbol that was not used before comes last. -/
theorem freeSymbols_snoc {fixed? : String → Option Nat} {code : List Instruction}
    {i : Instruction} {name : String} (uses : i.symbol? = some name) (free : fixed? name = none)
    (new : name ∉ freeSymbols fixed? code) :
    freeSymbols fixed? (code ++ [i]) = freeSymbols fixed? code ++ [name] := by
  have last : [i].filterMap Instruction.symbol? = [name] := by simp [uses]
  simp only [freeSymbols, List.filterMap_append, List.filter_append, last] at new ⊢
  rw [List.mem_eraseDups] at new
  rw [List.filter_cons_of_pos (by simp [free]), List.filter_nil, eraseDups_snoc, if_neg new]

/-- An instruction without a symbol, with a fixed one or with one used before adds nothing. -/
theorem freeSymbols_snoc_old {fixed? : String → Option Nat} {code : List Instruction}
    {i : Instruction}
    (old : ∀ name, i.symbol? = some name → fixed? name = none → name ∈ freeSymbols fixed? code) :
    freeSymbols fixed? (code ++ [i]) = freeSymbols fixed? code := by
  cases uses : i.symbol? with
  | none => simp [freeSymbols, uses]
  | some name =>
    have last : [i].filterMap Instruction.symbol? = [name] := by simp [uses]
    cases free : fixed? name with
    | some value => simp [freeSymbols, uses, free]
    | none =>
      have used := old name uses free
      simp only [freeSymbols, List.filterMap_append, List.filter_append, last] at used ⊢
      rw [List.mem_eraseDups] at used
      rw [List.filter_cons_of_pos (by simp [free]), List.filter_nil, eraseDups_snoc, if_pos used]

/-- An assembly that has come through the instructions `done` of a program: the labels, the
variables used so far in their cells, and the words. -/
structure Assembly.Describes (assembly : Assembly) (lines : List Line)
    (done : List Instruction) : Prop where
  symbols : ∀ name, assembly.symbols.get? name = (fixed? lines name).or
    (if name ∈ freeSymbols (fixed? lines) done then some (address lines name) else none)
  count : assembly.symbols.variableCount = (freeSymbols (fixed? lines) done).length
  words : done.mapM (Instruction.encode (address lines)) = .ok assembly.words.toList

namespace Assembly

variable {assembly after : Assembly} {lines : List Line} {done rest : List Instruction}
  {i : Instruction} {name : String}

/-- The variables used so far have the first cells, so the next one has the cell after them. -/
theorem address_next (whole : code lines = done ++ i :: rest) (uses : i.symbol? = some name)
    (free : fixed? lines name = none) (new : name ∉ freeSymbols (fixed? lines) done) :
    address lines name = Platform.variableBase + (freeSymbols (fixed? lines) done).length := by
  obtain ⟨more, split⟩ := freeSymbols_append (fixed? lines) (done ++ [i]) rest
  have all : variableNames lines = freeSymbols (fixed? lines) done ++ name :: more := by
    rw [variableNames, whole, List.append_cons, split, freeSymbols_snoc uses free new]
    simp
  rw [address, free, Option.getD_none, all, List.idxOf_append_of_notMem new, List.idxOf_cons_self,
    Nat.add_zero]

theorem describes_start {layout : Layout} (h : layout.Describes lines) :
    Assembly.Describes { symbols := layout.symbols } lines [] where
  symbols name := by simp [h.symbols, freeSymbols]
  count := by simp [h.unallocated, freeSymbols]
  words := rfl

theorem Describes.resolve (h : assembly.Describes lines done)
    (whole : code lines = done ++ i :: rest) (uses : i.symbol? = some name) :
    (assembly.symbols.resolve name).1 = address lines name := by
  rw [SymbolTable.resolve, h.symbols]
  cases fixed : fixed? lines name with
  | some cell => simp [address, fixed]
  | none =>
    by_cases used : name ∈ freeSymbols (fixed? lines) done
    · simp [used]
    · simp [used, SymbolTable.nextVariable, h.count, address_next whole uses fixed used]

end Assembly

/-- The symbols after an instruction was encoded. -/
def SymbolTable.use (table : SymbolTable) (i : Instruction) : SymbolTable :=
  match i.symbol? with
  | some name => (table.resolve name).2
  | none => table

/-- An instruction is encoded with the addresses that the table gives its symbol. -/
theorem SymbolTable.encode_eq (table : SymbolTable) (i : Instruction) :
    table.encode i =
      (i.encode fun name => (table.resolve name).1).map fun word => (word, table.use i) := by
  match i with
  | .address (.literal value) => rfl
  | .address (.symbol name) => rfl
  | .compute dest comp jump => rfl

theorem Instruction.encode_congr {resolve resolve' : String → Nat} {i : Instruction}
    (h : ∀ name, i.symbol? = some name → resolve name = resolve' name) :
    i.encode resolve = i.encode resolve' := by
  match i with
  | .address (.literal value) => rfl
  | .address (.symbol name) => rw [encode, encode, h name rfl]
  | .compute dest comp jump => rfl

namespace Assembly

variable {assembly after : Assembly} {lines : List Line} {done rest : List Instruction}
  {i : Instruction}

theorem Describes.add_eq (h : assembly.Describes lines done)
    (whole : code lines = done ++ i :: rest) :
    assembly.add i = (i.encode (address lines)).map fun word =>
      ⟨assembly.symbols.use i, assembly.words.push word⟩ := by
  have same : i.encode (fun name => (assembly.symbols.resolve name).1) =
      i.encode (address lines) :=
    Instruction.encode_congr fun name uses => h.resolve whole uses
  rw [Assembly.add, SymbolTable.encode_eq, same]
  cases i.encode (address lines) <;> rfl

/-- The symbols after one more instruction. -/
theorem Describes.use (h : assembly.Describes lines done)
    (whole : code lines = done ++ i :: rest) :
    (∀ name, (assembly.symbols.use i).get? name = (fixed? lines name).or
      (if name ∈ freeSymbols (fixed? lines) (done ++ [i]) then some (address lines name)
        else none)) ∧
    (assembly.symbols.use i).variableCount =
      (freeSymbols (fixed? lines) (done ++ [i])).length := by
  cases uses : i.symbol? with
  | none =>
    rw [SymbolTable.use, uses, freeSymbols_snoc_old (by simp [uses])]
    exact ⟨h.symbols, h.count⟩
  | some used =>
    have found := h.resolve whole uses
    have bound := h.symbols used
    simp only [SymbolTable.use, uses, SymbolTable.get?_resolve, found]
    by_cases new : fixed? lines used = none ∧ used ∉ freeSymbols (fixed? lines) done
    · have unbound : assembly.symbols.get? used = none := by simp [bound, new]
      rw [freeSymbols_snoc uses new.1 new.2]
      refine ⟨fun name => ?_, ?_⟩
      · split
        · next same =>
          subst same
          simp [new.1]
        · next different =>
          simp [h.symbols, Ne.symm different]
      · simp [SymbolTable.resolve, unbound, h.count]
    · have old : ∀ name, i.symbol? = some name → fixed? lines name = none →
          name ∈ freeSymbols (fixed? lines) done := by
        intro name uses' free
        cases uses.symm.trans uses'
        by_contra absent
        exact new ⟨free, absent⟩
      have known : assembly.symbols.get? used = some (address lines used) := by
        rw [bound]
        cases free : fixed? lines used with
        | some cell => simp [address, free]
        | none => simp [old used uses free]
      rw [freeSymbols_snoc_old old]
      refine ⟨fun name => ?_, ?_⟩
      · split
        · next same => rw [← h.symbols, ← same, known]
        · exact h.symbols name
      · simp [SymbolTable.resolve, known, h.count]

theorem Describes.add (h : assembly.Describes lines done)
    (whole : code lines = done ++ i :: rest) (added : assembly.add i = .ok after) :
    after.Describes lines (done ++ [i]) := by
  rw [h.add_eq whole] at added
  obtain ⟨word, encoded, rfl⟩ := Except.map_eq_ok.mp added
  obtain ⟨symbols, count⟩ := h.use whole
  refine ⟨symbols, count, ?_⟩
  simp only [Array.toList_push]
  exact mapM_snoc_eq_ok.mpr ⟨_, _, h.words, encoded, rfl⟩

/-- The second pass over numbered instructions. -/
def ofCode (start : Assembly) (numbered : List (Nat × Instruction)) :
    Except SourceError Assembly :=
  numbered.foldlM (fun assembly (number, i) => atLine number (assembly.add i)) start

theorem ofLayout_eq (layout : Layout) :
    ofLayout layout = ofCode { symbols := layout.symbols } layout.code.toList := by
  rw [ofLayout, ofCode, ← Array.foldlM_toList]

theorem describes_ofCode {start : Assembly} {numbered : List (Nat × Instruction)}
    (h : start.Describes lines []) (whole : code lines = numbered.map (·.2) ++ rest)
    (run : ofCode start numbered = .ok assembly) :
    assembly.Describes lines (numbered.map (·.2)) := by
  induction numbered using List.reverseRecOn generalizing assembly rest with
  | nil =>
    cases run
    exact h
  | append_singleton front last ih =>
    obtain ⟨number, i⟩ := last
    obtain ⟨mid, before, added⟩ := foldlM_snoc_eq_ok.mp run
    rw [List.map_append, List.append_assoc] at whole
    rw [List.map_append]
    exact (ih whole before).add whole (atLine_eq_ok.mp added)

theorem exists_ofCode {start : Assembly} {numbered : List (Nat × Instruction)}
    {words : List Word} (h : start.Describes lines [])
    (whole : code lines = numbered.map (·.2) ++ rest)
    (encoded : (numbered.map (·.2)).mapM (Instruction.encode (address lines)) = .ok words) :
    ∃ assembly, ofCode start numbered = .ok assembly := by
  induction numbered using List.reverseRecOn generalizing words rest with
  | nil => exact ⟨start, rfl⟩
  | append_singleton front last ih =>
    obtain ⟨number, i⟩ := last
    rw [List.map_append] at encoded
    obtain ⟨first, word, encodedFirst, encodedLast, -⟩ := mapM_snoc_eq_ok.mp encoded
    rw [List.map_append, List.append_assoc] at whole
    obtain ⟨mid, before⟩ := ih whole encodedFirst
    have added := (describes_ofCode h whole before).add_eq whole
    rw [encodedLast] at added
    exact ⟨_, foldlM_snoc_eq_ok.mpr ⟨mid, before, atLine_eq_ok.mpr added⟩⟩

end Assembly

/-! ### Both passes -/

/-- The lines of a source, each read. -/
def readSource (source : String) : Except Defect (List Line) :=
  (Text.cleanLines source.toList).mapM Line.read

theorem Layout.ofSource_eq (source : String) :
    Layout.ofSource source = Layout.ofLines (Layout.sourceLines source) := rfl

/-- A source assembles to some words if and only if its lines read, can be placed, and have these
words. -/
theorem assemble_eq_ok_iff {source : String} {image : Image} :
    assemble source = .ok image ↔ ∃ lines, readSource source = .ok lines ∧ Placeable lines ∧
      (code lines).mapM (Instruction.encode (address lines)) = .ok image.words.toList := by
  simp only [assemble, Assembly.ofSource, Except.map_eq_ok, Except.bind_eq_ok,
    Layout.ofSource_eq, Assembly.ofLayout_eq, readSource, ← Layout.sourceLines_snd]
  constructor
  · rintro ⟨assembly, ⟨layout, first, second⟩, rfl⟩
    obtain ⟨lines, reads, describes, placeable⟩ := Layout.describes_ofLines first
    have whole : code lines = layout.code.toList.map (·.2) ++ [] := by
      rw [List.append_nil, describes.code]
    have final := Assembly.describes_ofCode (Assembly.describes_start describes) whole second
    rw [describes.code] at final
    exact ⟨lines, reads, placeable, final.words⟩
  · rintro ⟨lines, reads, placeable, encoded⟩
    obtain ⟨layout, first⟩ := Layout.exists_ofLines reads placeable
    obtain ⟨others, readsOthers, describes, -⟩ := Layout.describes_ofLines first
    cases reads.symm.trans readsOthers
    have whole : code lines = layout.code.toList.map (·.2) ++ [] := by
      rw [List.append_nil, describes.code]
    have start := Assembly.describes_start describes
    obtain ⟨assembly, second⟩ :=
      Assembly.exists_ofCode start whole (by rw [describes.code]; exact encoded)
    have final := (Assembly.describes_ofCode start whole second).words
    rw [describes.code, encoded] at final
    refine ⟨assembly, ⟨layout, first, second⟩, ?_⟩
    cases image
    simp_all

end HackToolchain
