import HackToolchain.Assembly.Assemble
import HackToolchain.Proofs.Assembly.Capacity
import Mathlib.Logic.Relator

/-! The assembler only compares names and looks predefined ones up. Two sources that differ in their
names alone, each name of one standing for one name of the other, assemble to the same words or fail
at the same line. -/

namespace HackToolchain

/-! ### Outcomes that agree -/

/-- Two computations that both succeed, with related results, or both fail, with related errors. -/
inductive Agree {ε α β : Type} (F : ε → ε → Prop) (R : α → β → Prop) :
    Except ε α → Except ε β → Prop
  | ok {a : α} {b : β} (results : R a b) : Agree F R (.ok a) (.ok b)
  | error {e e' : ε} (errors : F e e') : Agree F R (.error e) (.error e')

/-- Two defects of one line. -/
def AnyDefects (_ _ : Defect) : Prop := True

def SameLine (e e' : SourceError) : Prop := e.line = e'.line

namespace Agree

variable {ε α α' β β' σ τ : Type} {F : ε → ε → Prop} {R : α → β → Prop} {S : σ → τ → Prop}

theorem bind {x : Except ε α} {y : Except ε β} {f : α → Except ε σ} {g : β → Except ε τ}
    (h : Agree F R x y) (next : ∀ a b, R a b → Agree F S (f a) (g b)) :
    Agree F S (x >>= f) (y >>= g) := by
  cases h with
  | ok results => exact next _ _ results
  | error errors => exact .error errors

theorem map {x : Except ε α} {y : Except ε β} {f : α → σ} {g : β → τ} (h : Agree F R x y)
    (next : ∀ a b, R a b → S (f a) (g b)) : Agree F S (x.map f) (y.map g) := by
  cases h with
  | ok results => exact .ok (next _ _ results)
  | error errors => exact .error errors

theorem atLine {x : Except Defect α} {y : Except Defect β} (h : Agree AnyDefects R x y)
    (number : Nat) : Agree SameLine R (atLine number x) (atLine number y) := by
  cases h with
  | ok results => exact .ok results
  | error => exact .error rfl

theorem foldlM {f : σ → α → Except ε σ} {g : τ → β → Except ε τ} {xs : List α} {ys : List β}
    (step : ∀ s t x y, S s t → R x y → Agree F S (f s x) (g t y)) (h : List.Forall₂ R xs ys)
    {s : σ} {t : τ} (start : S s t) : Agree F S (xs.foldlM f s) (ys.foldlM g t) := by
  induction h generalizing s t with
  | nil => exact .ok start
  | cons here _ ih =>
    rw [List.foldlM_cons, List.foldlM_cons]
    exact (step _ _ _ _ start here).bind fun _ _ next => ih next

theorem refl {x : Except Defect α} {R : α → α → Prop} (h : ∀ a, x = .ok a → R a a) :
    Agree AnyDefects R x x := by
  cases x with
  | ok a => exact .ok (h a rfl)
  | error => exact .error trivial

end Agree

/-! ### Renamed programs -/

/-- A correspondence of names that takes no two names together and keeps the predefined ones. -/
structure Renaming (R : String → String → Prop) : Prop where
  unique : Relator.BiUnique R
  predefined : ∀ {a b}, R a b → predefinedSymbols.lookup a = predefinedSymbols.lookup b

section

variable (R : String → String → Prop)

/-- Two instructions that only differ in a name. -/
inductive Instruction.Renamed : Instruction → Instruction → Prop
  | symbol {a b : String} (names : R a b) : Renamed (.address (.symbol a)) (.address (.symbol b))
  | literal (value : Nat) : Renamed (.address (.literal value)) (.address (.literal value))
  | compute (dest comp jump : String) : Renamed (.compute dest comp jump) (.compute dest comp jump)

/-- Two lines that only differ in a name. -/
inductive Line.Renamed : Line → Line → Prop
  | instruction {i j : Instruction} (h : i.Renamed R j) : Renamed (.instruction i) (.instruction j)
  | label {a b : String} (names : R a b) : Renamed (.label a) (.label b)

/-- Two tables that bind corresponding names to one address. -/
structure SymbolTable.Renamed (table other : SymbolTable) : Prop where
  get? : ∀ {a b}, R a b → table.get? a = other.get? b
  count : table.variableCount = other.variableCount

/-- Two instructions under one line number that only differ in a name. -/
def NumberedRenamed (entry other : Nat × Instruction) : Prop :=
  entry.1 = other.1 ∧ entry.2.Renamed R other.2

structure Layout.Renamed (layout other : Layout) : Prop where
  symbols : layout.symbols.Renamed R other.symbols
  code : List.Forall₂ (NumberedRenamed R) layout.code.toList other.code.toList

structure Assembly.Renamed (assembly other : Assembly) : Prop where
  symbols : assembly.symbols.Renamed R other.symbols
  words : assembly.words = other.words

/-- Two clean lines that only differ in a name when they are read, or are both blank. -/
structure CleanLineRenamed (line other : List Char) : Prop where
  blank : line.isEmpty = other.isEmpty
  reads : Agree AnyDefects (Line.Renamed R) (Line.read line) (Line.read other)

/-- Two lines of a source. -/
structure SourceLineRenamed (line other : String) : Prop where
  feed : '\n' ∉ line.toList ∧ '\n' ∉ other.toList
  clean : CleanLineRenamed R (Text.clean line.toList) (Text.clean other.toList)

end

variable {R : String → String → Prop}

namespace SymbolTable.Renamed

variable {table other : SymbolTable} {a b : String}

theorem insert (names : Renaming R) (h : table.Renamed R other) (same : R a b)
    (unbound : table.get? a = none) (address : Nat) {count : Nat} :
    SymbolTable.Renamed R ⟨table.added.insert a address, count⟩
      ⟨other.added.insert b address, count⟩ where
  get? := by
    intro c d same'
    rw [get?_insert unbound, get?_insert ((h.get? same).symm.trans unbound), h.get? same']
    have both : a = c ↔ b = d := Relator.rel_eq names.unique same same'
    simp only [both]
  count := rfl

theorem define (names : Renaming R) (h : table.Renamed R other) (same : R a b) (address : Nat) :
    Agree AnyDefects (SymbolTable.Renamed R) (table.define a address) (other.define b address) := by
  rw [SymbolTable.define, SymbolTable.define, ← h.get? same]
  cases bound : table.get? a with
  | some cell => exact .error trivial
  | none =>
    rw [← h.count]
    exact .ok (h.insert names same bound address)

theorem resolve (names : Renaming R) (h : table.Renamed R other) (same : R a b) :
    (table.resolve a).1 = (other.resolve b).1 ∧
      (table.resolve a).2.Renamed R (other.resolve b).2 := by
  rw [SymbolTable.resolve, SymbolTable.resolve, ← h.get? same]
  cases bound : table.get? a with
  | some cell => exact ⟨rfl, h⟩
  | none =>
    have next : table.nextVariable = other.nextVariable := by
      rw [nextVariable, nextVariable, h.count]
    refine ⟨next, ?_⟩
    rw [← next, ← h.count]
    exact h.insert names same bound _

theorem encode (names : Renaming R) (h : table.Renamed R other) {i j : Instruction}
    (renamed : i.Renamed R j) :
    Agree AnyDefects (fun x y => x.1 = y.1 ∧ x.2.Renamed R y.2) (table.encode i)
      (other.encode j) := by
  have result : ∀ x : Except Defect Word, Agree AnyDefects Eq x x := fun _ => .refl fun _ _ => rfl
  cases renamed with
  | symbol same =>
    obtain ⟨address, after⟩ := h.resolve names same
    simp only [SymbolTable.encode, ← address]
    exact (result _).map fun _ _ word => ⟨word, after⟩
  | literal | compute => exact (result _).map fun _ _ word => ⟨word, h⟩

end SymbolTable.Renamed

/-! ### Both passes -/

namespace Layout.Renamed

variable {layout other : Layout}

theorem add (names : Renaming R) (h : layout.Renamed R other) {line line' : Line}
    (renamed : line.Renamed R line') (number : Nat) :
    Agree AnyDefects (Layout.Renamed R) (layout.add number line) (other.add number line') := by
  have size : layout.code.size = other.code.size := by
    simpa using h.code.length_eq
  cases renamed with
  | label same =>
    rw [Layout.add, Layout.add, size]
    exact (h.symbols.define names same _).map fun _ _ symbols => ⟨symbols, h.code⟩
  | instruction renamed =>
    rw [Layout.add, Layout.add, size]
    split
    · refine .ok ⟨h.symbols, ?_⟩
      simp only [Array.toList_push]
      exact List.rel_append h.code (.cons ⟨rfl, renamed⟩ .nil)
    · exact .error trivial

end Layout.Renamed

theorem Layout.renamed_ofLines (names : Renaming R) {lines lines' : List (Nat × List Char)}
    (h : List.Forall₂ (fun line other => line.1 = other.1 ∧ CleanLineRenamed R line.2 other.2)
      lines lines') :
    Agree SameLine (Layout.Renamed R) (ofLines lines) (ofLines lines') := by
  refine Agree.foldlM ?_ h ⟨⟨fun same => ?_, rfl⟩, .nil⟩
  · rintro layout other ⟨number, text⟩ ⟨_, text'⟩ renamed ⟨rfl, line⟩
    exact (line.reads.bind fun _ _ line => renamed.add names line number).atLine number
  · simp [SymbolTable.get?, names.predefined same]

theorem Assembly.Renamed.add (names : Renaming R) {assembly other : Assembly}
    (h : assembly.Renamed R other) {i j : Instruction} (renamed : i.Renamed R j) :
    Agree AnyDefects (Assembly.Renamed R) (assembly.add i) (other.add j) := by
  obtain ⟨symbols, words⟩ := h
  rw [Assembly.add, Assembly.add]
  refine (symbols.encode names renamed).map ?_
  rintro ⟨word, _⟩ ⟨_, _⟩ ⟨same, after⟩
  exact ⟨after, by rw [words, show word = _ from same]⟩

theorem Assembly.renamed_ofLayout (names : Renaming R) {layout other : Layout}
    (h : layout.Renamed R other) :
    Agree SameLine (Assembly.Renamed R) (ofLayout layout) (ofLayout other) := by
  rw [ofLayout, ofLayout, ← Array.foldlM_toList, ← Array.foldlM_toList]
  refine Agree.foldlM ?_ h.code ⟨h.symbols, rfl⟩
  rintro assembly other ⟨number, i⟩ ⟨_, j⟩ renamed ⟨rfl, instruction⟩
  exact (renamed.add names instruction).atLine number

/-! ### Sources -/

theorem forall₂_zipIdx {α : Type} {S : α → α → Prop} {xs ys : List α} (h : List.Forall₂ S xs ys)
    (start : Nat) : List.Forall₂ (fun x y => S x.1 y.1 ∧ x.2 = y.2) (xs.zipIdx start)
      (ys.zipIdx start) := by
  induction h generalizing start with
  | nil => exact .nil
  | cons here _ ih => exact .cons ⟨here, rfl⟩ (ih (start + 1))

theorem Text.forall₂_numbered {S : List Char → List Char → Prop} {keep : List Char → Bool}
    {lines other : List (List Char)} (kept : ∀ {x y}, S x y → keep x = keep y)
    (h : List.Forall₂ S lines other) : List.Forall₂ (fun x y => x.1 = y.1 ∧ S x.2 y.2)
      (numbered keep lines) (numbered keep other) := by
  refine List.rel_filter (fun x y same => by simp only [kept same.2]) ?_
  exact List.rel_map (fun x y same => ⟨same.2, same.1⟩) (forall₂_zipIdx h 1)

theorem renamed_sourceLines {lines other : List String}
    (h : List.Forall₂ (SourceLineRenamed R) lines other) :
    List.Forall₂ (fun x y => x.1 = y.1 ∧ CleanLineRenamed R x.2 y.2)
      (Layout.sourceLines (unlines lines)) (Layout.sourceLines (unlines other)) := by
  have feed : ∀ line ∈ lines, '\n' ∉ line.toList := by
    intro line inside
    obtain ⟨_, -, renamed⟩ := exists_of_mem_forall₂ h inside
    exact renamed.feed.1
  have feed' : ∀ line ∈ other, '\n' ∉ line.toList := by
    intro line inside
    obtain ⟨_, -, renamed⟩ := exists_of_mem_forall₂ h.flip inside
    exact renamed.feed.2
  rw [sourceLines_unlines feed, sourceLines_unlines feed']
  exact Text.forall₂_numbered (fun line => by rw [line.blank])
    (List.rel_map (fun _ _ renamed => renamed.clean) h)

/-- Renamed sources assemble to the same words or fail at the same line. -/
theorem assemble_renamed (names : Renaming R) {lines other : List String}
    (h : List.Forall₂ (SourceLineRenamed R) lines other) :
    (assemble (unlines lines)).mapError SourceError.line =
      (assemble (unlines other)).mapError SourceError.line := by
  have agree : Agree SameLine (Assembly.Renamed R) (Assembly.ofSource (unlines lines))
      (Assembly.ofSource (unlines other)) :=
    (Layout.renamed_ofLines names (renamed_sourceLines h)).bind fun _ _ layout =>
      Assembly.renamed_ofLayout names layout
  rw [assemble, assemble]
  generalize Assembly.ofSource (unlines lines) = run at agree
  generalize Assembly.ofSource (unlines other) = run' at agree
  cases agree with
  | ok renamed => simp [Except.map, Except.mapError, renamed.words]
  | error same => exact congrArg Except.error same

/-! ### Lines and comments as text -/

theorem Line.read_nil (line : Line) : Line.read [] ≠ .ok line := by
  simp [Line.read, Line.readCompute, cut?, Except.map]

/-- A comment has no names. -/
theorem sourceLineRenamed_comment {line : String} (h : '\n' ∉ line.toList) :
    SourceLineRenamed R ("// " ++ line) ("// " ++ line) := by
  have text : ("// " ++ line).toList = '/' :: '/' :: ' ' :: line.toList := by
    rw [String.toList_append]
    rfl
  have feed : '\n' ∉ ("// " ++ line).toList := by simp [text, h]
  refine ⟨⟨feed, feed⟩, rfl, ?_⟩
  rw [text, Text.clean_comment]
  exact .refl fun line read => absurd read (Line.read_nil line)

theorem Line.Renamed.sourceLine {line other : Line} (h : line.Renamed R other)
    (spelled : line.WellSpelled) (spelled' : other.WellSpelled) :
    SourceLineRenamed R line.text other.text := by
  have plain := spelled.plain
  have plain' := spelled'.plain
  refine ⟨⟨plain.feed_not_mem, plain'.feed_not_mem⟩, ?_, ?_⟩
  · rw [plain.clean, plain'.clean, List.isEmpty_eq_false_iff.mpr plain.1,
      List.isEmpty_eq_false_iff.mpr plain'.1]
  · rw [plain.clean, plain'.clean]
    cases h with
    | label names =>
      rw [spelled.read_text.mpr ⟨rfl, nofun⟩, spelled'.read_text.mpr ⟨rfl, nofun⟩]
      exact .ok (.label names)
    | instruction renamed =>
      cases renamed with
      | symbol names =>
        rw [spelled.read_text.mpr ⟨rfl, nofun⟩, spelled'.read_text.mpr ⟨rfl, nofun⟩]
        exact .ok (.instruction (.symbol names))
      | literal value =>
        refine .refl fun read reads => ?_
        rw [(spelled.read_text.mp reads).1]
        exact .instruction (.literal value)
      | compute dest comp jump =>
        refine .refl fun read reads => ?_
        rw [(spelled.read_text.mp reads).1]
        exact .instruction (.compute dest comp jump)

end HackToolchain
