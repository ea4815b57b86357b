import Std.Data.HashMap
import HackToolchain.Defect

/-! The symbol table: the predefined symbols, which never change, the labels and variables that a
program adds, and the number of its variables. Variables take the cells from 16 on, in the order
of their first use. -/

namespace HackToolchain

def predefinedSymbols : List (String × Nat) :=
  [("SP", Platform.stackPointer), ("LCL", Platform.localBase), ("ARG", Platform.argumentBase),
   ("THIS", Platform.thisBase), ("THAT", Platform.thatBase), ("SCREEN", Platform.screen),
   ("KBD", Platform.keyboard), ("R0", 0), ("R1", 1), ("R2", 2), ("R3", 3), ("R4", 4), ("R5", 5),
   ("R6", 6), ("R7", 7), ("R8", 8), ("R9", 9), ("R10", 10), ("R11", 11), ("R12", 12),
   ("R13", 13), ("R14", 14), ("R15", 15)]

structure SymbolTable where
  /-- The labels and variables of the program. -/
  added : Std.HashMap String Nat := {}
  /-- The number of variables among them. -/
  variableCount : Nat := 0

namespace SymbolTable

def get? (table : SymbolTable) (name : String) : Option Nat :=
  (predefinedSymbols.lookup name).or table.added[name]?

/-- Binds a label, which must be unbound. -/
def define (table : SymbolTable) (name : String) (address : Nat) : Except Defect SymbolTable :=
  match table.get? name with
  | some bound => .error (.labelInUse name bound)
  | none => .ok { table with added := table.added.insert name address }

/-- The cell of the next variable. -/
def nextVariable (table : SymbolTable) : Nat := Platform.variableBase + table.variableCount

/-- The address of a symbol; an unbound symbol becomes the next variable. -/
def resolve (table : SymbolTable) (name : String) : Nat × SymbolTable :=
  match table.get? name with
  | some address => (address, table)
  | none =>
    (table.nextVariable,
      ⟨table.added.insert name table.nextVariable, table.variableCount + 1⟩)

/-! ### Lookups after an operation -/

theorem get?_insert {table : SymbolTable} {name : String} (h : table.get? name = none)
    (address count : Nat) (other : String) :
    (SymbolTable.mk (table.added.insert name address) count).get? other =
      if name = other then some address else table.get? other := by
  obtain ⟨fixed, _⟩ := Option.or_eq_none_iff.mp h
  by_cases same : name = other
  · subst same
    simp [get?, fixed]
  · simp [get?, Std.HashMap.getElem?_insert, same]

theorem get?_define {table after : SymbolTable} {name : String} {address : Nat}
    (h : table.define name address = .ok after) (other : String) :
    after.get? other = if name = other then some address else table.get? other := by
  unfold define at h
  split at h
  · contradiction
  · next unbound =>
    cases h
    exact get?_insert unbound ..

theorem get?_resolve (table : SymbolTable) (name other : String) :
    (table.resolve name).2.get? other =
      if name = other then some (table.resolve name).1 else table.get? other := by
  unfold resolve
  split
  · next address bound =>
    split
    · next same => exact same ▸ bound
    · rfl
  · next unbound => exact get?_insert unbound ..

end SymbolTable

end HackToolchain
