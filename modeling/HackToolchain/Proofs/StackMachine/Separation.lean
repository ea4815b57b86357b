import HackToolchain.Proofs.StackMachine.Frames
import HackToolchain.Proofs.StackMachine.Machine
import HackToolchain.Proofs.StackMachine.Separate

/-! A program without labels, jumps and functions keeps its separate memories apart in the one
memory of the platform: each command does there what it does in the separate memories, and the
scratch register is in nobody's way. -/

namespace HackToolchain.StackMachine

/-! ### The memory of the platform -/

/-- The cell of a place; the symbols of static variables are resolved to cells. -/
def Place.cell (statics : String → Nat → Cell) : Place → Cell
  | .temp i => BitVec.ofNat 15 (Platform.tempBase + i)
  | .pointer i => BitVec.ofNat 15 (Platform.thisBase + i)
  | .static file index => statics file index

/-- The places of a program with some static variables. -/
def Place.Known (used : List (String × Nat)) : Place → Prop
  | .static file index => (file, index) ∈ used
  | _ => True

/-- The static variables have cells of their own between the registers and the stack. -/
structure Apart (statics : String → Nat → Cell) (used : List (String × Nat)) : Prop where
  low : ∀ v ∈ used, 16 ≤ (statics v.1 v.2).toNat
  high : ∀ v ∈ used, (statics v.1 v.2).toNat < Platform.stackBase
  distinct : ∀ v ∈ used, ∀ w ∈ used, statics v.1 v.2 = statics w.1 w.2 → v = w

/-- The words on the stack, the top first, in their cells. -/
def Stacked (ram : Ram) : List Word → Prop
  | [] => True
  | top :: rest => ram.word (Platform.stackBase + rest.length) = top ∧ Stacked ram rest

/-- A memory that holds what is in the separate memories, each word in its cell. -/
structure Holds (statics : String → Nat → Cell) (used : List (String × Nat)) (m : Separate)
    (ram : Ram) : Prop where
  pointer : ram.word 0 = BitVec.ofNat 16 (Platform.stackBase + m.stack.length)
  stack : Stacked ram m.stack
  places : ∀ p : Place, p.Known used → ram.read (p.cell statics) = m.get p

section

variable {statics : String → Nat → Cell} {used : List (String × Nat)} {m : Separate}
  {ram : Ram} {p q : Place}

theorem toNat_temp (i : Fin 8) :
    ((Place.temp i).cell statics).toNat = Platform.tempBase + i := by
  rw [Place.cell, BitVec.toNat_ofNat, Platform.tempBase]
  omega

theorem toNat_pointer (i : Fin 2) :
    ((Place.pointer i).cell statics).toNat = Platform.thisBase + i := by
  rw [Place.cell, BitVec.toNat_ofNat, Platform.thisBase]
  omega

theorem Apart.low_static (apart : Apart statics used) {file : String} {index : Nat}
    (known : (Place.static file index).Known used) :
    16 ≤ ((Place.static file index).cell statics).toNat :=
  apart.low _ known

/-- The cells of places are neither the stack pointer nor the scratch register nor on the stack. -/
theorem Apart.bounds (apart : Apart statics used) (known : p.Known used) :
    3 ≤ (p.cell statics).toNat ∧ (p.cell statics).toNat ≠ 13 ∧
      (p.cell statics).toNat < Platform.stackBase := by
  cases p with
  | temp i =>
    rw [toNat_temp, Platform.tempBase, Platform.stackBase]
    omega
  | pointer i =>
    rw [toNat_pointer, Platform.thisBase, Platform.stackBase]
    omega
  | static file index =>
    have low := apart.low_static known
    exact ⟨by omega, by omega, apart.high _ known⟩

/-- Different places have different cells. -/
theorem Apart.injective (apart : Apart statics used) (known : p.Known used)
    (other : q.Known used) (same : p.cell statics = q.cell statics) : p = q := by
  have number := congrArg BitVec.toNat same
  -- The pointers have the cells 3 and 4, the temps 5 to 12, and the static variables begin at 16.
  cases p with
  | temp i =>
    rw [toNat_temp, Platform.tempBase] at number
    cases q with
    | temp j =>
      rw [toNat_temp, Platform.tempBase] at number
      exact congrArg Place.temp (Fin.ext (by omega))
    | pointer j =>
      rw [toNat_pointer, Platform.thisBase] at number
      omega
    | static file index =>
      have low := apart.low_static other
      omega
  | pointer i =>
    rw [toNat_pointer, Platform.thisBase] at number
    cases q with
    | temp j =>
      rw [toNat_temp, Platform.tempBase] at number
      omega
    | pointer j =>
      rw [toNat_pointer, Platform.thisBase] at number
      exact congrArg Place.pointer (Fin.ext (by omega))
    | static file index =>
      have low := apart.low_static other
      omega
  | static file index =>
    have low := apart.low_static known
    cases q with
    | temp j =>
      rw [toNat_temp, Platform.tempBase] at number
      omega
    | pointer j =>
      rw [toNat_pointer, Platform.thisBase] at number
      omega
    | static other index' =>
      obtain ⟨rfl, rfl⟩ := Prod.mk.inj (apart.distinct _ known _ other same)
      rfl

theorem read_setWord_ne {number : Nat} {value : Word} {cell : Cell} (inside : number < 32768)
    (other : cell.toNat ≠ number) : (ram.setWord number value).read cell = ram.read cell := by
  have apart : (ram.setWord number value).word cell.toNat = ram.word cell.toNat :=
    Ram.word_setWord_ne inside cell.isLt other.symm
  unfold Ram.word at apart
  rwa [BitVec.ofNat_toNat, BitVec.setWidth_eq] at apart

/-- What is written outside of the stack leaves the stack alone. -/
theorem Stacked.congr {words : List Word} {after : Ram} (stacked : Stacked ram words)
    (same : ∀ number, Platform.stackBase ≤ number → number < Platform.stackBase + words.length →
      after.word number = ram.word number) : Stacked after words := by
  induction words with
  | nil => trivial
  | cons top rest ih =>
    obtain ⟨here, later⟩ := stacked
    rw [List.length_cons] at same
    constructor
    · rw [same _ (by omega) (by omega)]
      exact here
    · apply ih later
      intro number low high
      exact same number low (by omega)

theorem Stacked.map_word {words : List Word} (stacked : Stacked ram words) :
    (List.range' Platform.stackBase words.length).map ram.word = words.reverse := by
  induction words with
  | nil => rfl
  | cons top rest ih =>
    obtain ⟨here, later⟩ := stacked
    rw [List.length_cons, List.range'_1_concat, List.map_append, ih later, List.map_singleton,
      here, List.reverse_cons]

namespace Holds

/-- The address scratch register is no cell of the separate memories. -/
theorem setScratch (holds : Holds statics used m ram) (apart : Apart statics used)
    (room : m.stack.length ≤ 32511) (value : Word) :
    Holds statics used m (ram.setWord 13 value) where
  pointer := by
    rw [Ram.word_setWord_ne (by omega) (by omega) (by omega)]
    exact holds.pointer
  stack := by
    have base : Platform.stackBase = 256 := rfl
    apply holds.stack.congr
    intro number low high
    exact Ram.word_setWord_ne (by omega) (by omega) (by omega)
  places := by
    intro p known
    obtain ⟨-, other, -⟩ := apart.bounds known
    rw [read_setWord_ne (by omega) other]
    exact holds.places p known

theorem push (holds : Holds statics used m ram) (apart : Apart statics used)
    (room : m.stack.length < 32511) (value : Word) :
    ∃ after, StackMachine.push .inCells value ram = some ((), after) ∧
      Holds statics used (m.push value) after := by
  have base : Platform.stackBase = 256 := rfl
  have below : Platform.stackBase + m.stack.length < 32768 := by omega
  refine ⟨_, run_push value holds.pointer (by omega) below, ?_, ?_, ?_⟩
  · exact Ram.word_setWord_same
  · constructor
    · rw [Ram.word_setWord_ne (by omega) below (by omega)]
      exact Ram.word_setWord_same
    · apply holds.stack.congr
      intro number least most
      rw [Ram.word_setWord_ne (by omega) (by omega) (by omega),
        Ram.word_setWord_ne below (by omega) (by omega)]
  · intro p known
    obtain ⟨first, -, last⟩ := apart.bounds known
    rw [read_setWord_ne (by omega) (by omega), read_setWord_ne below (by omega)]
    exact holds.places p known

theorem pop (holds : Holds statics used m ram) (apart : Apart statics used)
    (room : m.stack.length ≤ 32511) {top : Word} {rest : List Word}
    (split : m.stack = top :: rest) :
    ∃ after, StackMachine.pop .inCells ram = some (top, after) ∧
      Holds statics used { m with stack := rest } after := by
  have base : Platform.stackBase = 256 := rfl
  have pointer := holds.pointer
  have stack := holds.stack
  rw [split, List.length_cons] at pointer room
  rw [split] at stack
  obtain ⟨here, later⟩ := stack
  rw [← here]
  refine ⟨_, run_pop pointer (by omega) (by omega), Ram.word_setWord_same, ?_, ?_⟩
  · apply later.congr
    intro number least most
    exact Ram.word_setWord_ne (by omega) (by omega) (by omega)
  · intro p known
    obtain ⟨first, -, -⟩ := apart.bounds known
    rw [read_setWord_ne (by omega) (by omega)]
    exact holds.places p known

theorem write (holds : Holds statics used m ram) (apart : Apart statics used)
    (room : m.stack.length ≤ 32511) (known : p.Known used) (value : Word) :
    Holds statics used (m.set value p) (ram.write (p.cell statics) value) := by
  have base : Platform.stackBase = 256 := rfl
  obtain ⟨low, -, high⟩ := apart.bounds known
  have written : ram.write (p.cell statics) value =
      ram.setWord (p.cell statics).toNat value := by
    rw [Ram.setWord, BitVec.ofNat_toNat, BitVec.setWidth_eq]
  constructor
  · rw [m.stack_set, written, Ram.word_setWord_ne (by omega) (by omega) (by omega)]
    exact holds.pointer
  · rw [m.stack_set, written]
    apply holds.stack.congr
    intro number least most
    exact Ram.word_setWord_ne (by omega) (by omega) (by omega)
  · intro q other
    rw [m.get_set, Ram.read_write, holds.places q other]
    by_cases same : p = q
    · rw [if_pos same, if_pos (by rw [same])]
    · rw [if_neg same, if_neg fun cells => same (apart.injective known other cells)]

/-! ### Commands -/

theorem binary (holds : Holds statics used m ram) (apart : Apart statics used)
    (room : m.stack.length ≤ 32511) (value : Word → Word → Word) {stack : List Word}
    (run : Separate.operate.binary value m.stack = some stack) :
    ∃ after, operate.binary .inCells value ram = some ((), after) ∧
      Holds statics used { m with stack } after := by
  obtain ⟨right, left, rest, split, rfl⟩ : ∃ right left rest,
      m.stack = right :: left :: rest ∧ value left right :: rest = stack := by
    unfold Separate.operate.binary at run
    split at run
    · next right left rest split => exact ⟨right, left, rest, split, Option.some.inj run⟩
    · cases run
  have height := congrArg List.length split
  rw [List.length_cons, List.length_cons] at height
  obtain ⟨mid, popRight, holds⟩ := holds.pop apart room split
  obtain ⟨low, popLeft, holds⟩ := holds.pop apart (by dsimp only [List.length_cons]; omega) rfl
  obtain ⟨after, pushes, holds⟩ := holds.push apart (by dsimp only; omega) (value left right)
  refine ⟨after, ?_, holds⟩
  rw [operate.binary, run_bind popRight, run_bind popLeft]
  exact pushes

theorem unary (holds : Holds statics used m ram) (apart : Apart statics used)
    (room : m.stack.length ≤ 32511) (value : Word → Word) {stack : List Word}
    (run : Separate.operate.unary value m.stack = some stack) :
    ∃ after, (do StackMachine.push .inCells (value (← StackMachine.pop .inCells))) ram =
        some ((), after) ∧ Holds statics used { m with stack } after := by
  obtain ⟨top, rest, split, rfl⟩ : ∃ top rest,
      m.stack = top :: rest ∧ value top :: rest = stack := by
    unfold Separate.operate.unary at run
    split at run
    · next top rest split => exact ⟨top, rest, split, Option.some.inj run⟩
    · cases run
  have height := congrArg List.length split
  rw [List.length_cons] at height
  obtain ⟨mid, pops, holds⟩ := holds.pop apart room split
  obtain ⟨after, pushes, holds⟩ := holds.push apart (by dsimp only; omega) (value top)
  refine ⟨after, ?_, holds⟩
  rw [run_bind pops]
  exact pushes

theorem operate (holds : Holds statics used m ram) (apart : Apart statics used)
    (room : m.stack.length ≤ 32511) {op : Operator} {stack : List Word}
    (run : Separate.operate op m.stack = some stack) :
    ∃ after, StackMachine.operate .inCells op ram = some ((), after) ∧
      Holds statics used { m with stack } after := by
  cases op with
  | neg | not => exact holds.unary apart room _ run
  | add | sub | and | or | eq | gt | lt => exact holds.binary apart room _ run

/-- Finding the cell of a place writes to the address scratch register at most. -/
theorem segmentCell (holds : Holds statics used m ram) (apart : Apart statics used)
    (room : m.stack.length ≤ 32511) {segment : Segment} {index : Nat} {file : String}
    (found : Place.find? segment index file = some p) :
    ∃ after, StackMachine.segmentCell .inCells statics segment index file ram =
      some (p.cell statics, after) ∧ Holds statics used m after := by
  cases segment with
  | temp =>
    obtain ⟨small, rfl⟩ := Place.find?_temp found
    refine ⟨_, ?_, holds.setScratch apart room (BitVec.ofNat 16 (Platform.tempBase + index))⟩
    show addressed .inCells (BitVec.ofNat 16 (Platform.tempBase + index)) ram = _
    rw [addressed, addressScratch_eq, run_bind (keep_word 13 _), cellOf_ofNat]
    rfl
  | pointer =>
    obtain ⟨small, rfl⟩ := Place.find?_pointer found
    exact ⟨ram, rfl, holds⟩
  | staticVar =>
    cases found
    exact ⟨ram, rfl, holds⟩
  | argument | localVar | this | that | constant => cases found

theorem access_push (holds : Holds statics used m ram) (apart : Apart statics used)
    (room : m.stack.length < 32511) {segment : Segment} {index : Nat} {file : String}
    (found : Place.find? segment index file = some p) (known : p.Known used) :
    ∃ after, access .inCells statics .push segment index file ram = some ((), after) ∧
      Holds statics used (m.push (m.get p)) after := by
  have cell : segment ≠ .constant := by
    rintro rfl
    cases found
  obtain ⟨mid, finds, holds⟩ := holds.segmentCell apart (Nat.le_of_lt room) found
  obtain ⟨after, pushes, held⟩ := holds.push apart room (m.get p)
  refine ⟨after, ?_, held⟩
  rw [access, if_neg cell, run_bind finds, run_bind (run_load _ mid), holds.places p known]
  exact pushes

theorem access_pop (holds : Holds statics used m ram) (apart : Apart statics used)
    (room : m.stack.length ≤ 32511) {segment : Segment} {index : Nat} {file : String}
    (found : Place.find? segment index file = some p) (known : p.Known used) {top : Word}
    {rest : List Word} (split : m.stack = top :: rest) :
    ∃ after, access .inCells statics .pop segment index file ram = some ((), after) ∧
      Holds statics used ({ m with stack := rest }.set top p) after := by
  have height := congrArg List.length split
  rw [List.length_cons] at height
  obtain ⟨mid, finds, holds⟩ := holds.segmentCell apart room found
  obtain ⟨popped, pops, holds⟩ := holds.pop apart room split
  refine ⟨_, ?_, holds.write apart (by dsimp only; omega) known top⟩
  rw [access, run_bind finds, run_bind pops, run_store]

end Holds

theorem known_of_find? {op : StackOp} {segment : Segment} {index : Int32} {file : String}
    (found : Place.find? segment index.toInt.toNat file = some p)
    (inside : ∀ v ∈ (Command.access op segment index file).statics, v ∈ used) :
    p.Known used := by
  cases segment with
  | temp =>
    obtain ⟨small, rfl⟩ := Place.find?_temp found
    trivial
  | pointer =>
    obtain ⟨small, rfl⟩ := Place.find?_pointer found
    trivial
  | staticVar =>
    cases found
    exact inside _ (List.mem_singleton.mpr rfl)
  | argument | localVar | this | that | constant => cases found

end

section

variable {place : Placement} {used : List (String × Nat)} {m next : Separate} {ram : Ram}
  {commands : List Command} {c : Command}

/-- Each command does in the one memory what it does in the separate ones. -/
theorem Holds.step (holds : Holds place.statics used m ram) (apart : Apart place.statics used)
    (room : m.stack.length < 32511) (straight : c.StraightLine)
    (inside : ∀ v ∈ c.statics, v ∈ used) (run : m.step c = some next) (i : Nat) :
    ∃ after, execute .inCells place commands i c ram = some (i + 1, after) ∧
      Holds place.statics used next after := by
  cases c with
  | operator op =>
    obtain ⟨stack, operates, same⟩ := Option.bind_eq_some_iff.mp run
    cases same
    obtain ⟨after, same, holds⟩ := holds.operate apart (Nat.le_of_lt room) operates
    refine ⟨after, ?_, holds⟩
    rw [execute, run_bind same, run_pure]
  | access op segment index file =>
    cases op with
    | push =>
      dsimp only [Separate.step] at run
      by_cases constant : segment = .constant
      · rw [if_pos constant] at run
        subst constant
        cases run
        obtain ⟨positive, -⟩ := straight
        have same : BitVec.ofNat 16 index.toInt.toNat = BitVec.ofInt 16 index.toInt := by
          rw [← BitVec.ofInt_natCast, Int.toNat_of_nonneg positive]
        obtain ⟨after, pushes, holds⟩ := holds.push apart room (BitVec.ofInt 16 index.toInt)
        refine ⟨after, ?_, holds⟩
        rw [execute, access, if_pos rfl, same, run_bind pushes, run_pure]
      · rw [if_neg constant] at run
        obtain ⟨p, found, rfl⟩ := Option.map_eq_some_iff.mp run
        obtain ⟨after, pushes, holds⟩ := holds.access_push apart room found
          (known_of_find? found inside)
        refine ⟨after, ?_, holds⟩
        rw [execute, run_bind pushes, run_pure]
    | pop =>
      dsimp only [Separate.step] at run
      split at run
      · cases run
      · next top rest split =>
        obtain ⟨p, found, rfl⟩ := Option.map_eq_some_iff.mp run
        obtain ⟨after, pops, holds⟩ := holds.access_pop apart (Nat.le_of_lt room) found
          (known_of_find? found inside) split
        refine ⟨after, ?_, holds⟩
        rw [execute, run_bind pops, run_pure]
  | label | goto | ifGoto | function | call | ret => cases run

end

end HackToolchain.StackMachine
