import HackToolchain.Assembly.Line
import HackToolchain.Command.Basic
import HackToolchain.Proofs.StackMachine.Memory
import Mathlib.Logic.Function.Basic

/-! Programs without labels, jumps and functions, and the stack machine that runs them with a memory
of its own for each segment: a list for the stack, the temp and pointer cells, and the static
variables by file and index. -/

namespace HackToolchain

/-! ### Commands -/

/-- The operands of an access that stays in the memory of its segment. -/
def Segment.InRange (op : StackOp) (index : Int) (file : String) : Segment → Prop
  | constant => op = .push ∧ index ≤ 32767
  | temp => index ≤ 7
  | pointer => index ≤ 1
  | staticVar => isSymbol file.toList
  | argument | localVar | this | that => False

namespace Command

/-- A command of a program without labels, jumps and functions, which uses no segment that lies
where a register points to. -/
def StraightLine : Command → Prop
  | operator _ => True
  | access op segment index file => 0 ≤ index.toInt ∧ segment.InRange op index.toInt file
  | _ => False

instance (op : StackOp) (index : Int) (file : String) :
    DecidablePred (Segment.InRange op index file)
  | .constant => inferInstanceAs (Decidable (op = .push ∧ index ≤ 32767))
  | .temp => inferInstanceAs (Decidable (index ≤ 7))
  | .pointer => inferInstanceAs (Decidable (index ≤ 1))
  | .staticVar => inferInstanceAs (Decidable (isSymbol file.toList))
  | .argument | .localVar | .this | .that => .isFalse id

instance : DecidablePred StraightLine
  | operator _ => .isTrue trivial
  | access op segment index file =>
    inferInstanceAs (Decidable (0 ≤ index.toInt ∧ segment.InRange op index.toInt file))
  | label _ | goto _ | ifGoto _ | function .. | call .. | ret => .isFalse id

/-- The static variable that a command accesses, by file and index. -/
def statics : Command → List (String × Nat)
  | access _ .staticVar index file => [(file, index.toInt.toNat)]
  | _ => []

theorem access_of_mem_statics {c : Command} {v : String × Nat} (own : v ∈ c.statics) :
    ∃ op index file, c = access op .staticVar index file ∧ v = (file, index.toInt.toNat) := by
  cases c with
  | access op segment index file =>
    cases segment with
    | staticVar => exact ⟨op, index, file, rfl, List.mem_singleton.mp own⟩
    | argument | localVar | this | that | pointer | temp | constant => cases own
  | operator | label | goto | ifGoto | function | call | ret => cases own

end Command

namespace StackMachine

/-! ### The machine -/

/-- A cell outside of the stack. -/
inductive Place where
  | temp (i : Fin 8)
  | pointer (i : Fin 2)
  | static (file : String) (index : Nat)
deriving DecidableEq

/-- The place at an index of a segment. -/
def Place.find? (segment : Segment) (index : Nat) (file : String) : Option Place :=
  match segment with
  | .temp => if h : index < 8 then some (.temp ⟨index, h⟩) else none
  | .pointer => if h : index < 2 then some (.pointer ⟨index, h⟩) else none
  | .staticVar => some (.static file index)
  | _ => none

theorem Place.find?_temp {index : Nat} {file : String} {p : Place}
    (found : Place.find? .temp index file = some p) : ∃ small, Place.temp ⟨index, small⟩ = p := by
  simpa [Place.find?] using found

theorem Place.find?_pointer {index : Nat} {file : String} {p : Place}
    (found : Place.find? .pointer index file = some p) :
    ∃ small, Place.pointer ⟨index, small⟩ = p := by
  simpa [Place.find?] using found

structure Separate where
  /-- The top first. -/
  stack : List Word
  temps : Fin 8 → Word
  pointers : Fin 2 → Word
  statics : String × Nat → Word

namespace Separate

def initial : Separate where
  stack := []
  temps _ := 0
  pointers i := if i = 0 then 3000 else 3010
  statics _ := 0

def get (m : Separate) : Place → Word
  | .temp i => m.temps i
  | .pointer i => m.pointers i
  | .static file index => m.statics (file, index)

def set (m : Separate) (value : Word) : Place → Separate
  | .temp i => { m with temps := Function.update m.temps i value }
  | .pointer i => { m with pointers := Function.update m.pointers i value }
  | .static file index => { m with statics := Function.update m.statics (file, index) value }

/-- What an operator makes of the stack. The order of two words is that of the sign of their
difference, which may wrap. -/
def operate : Operator → List Word → Option (List Word)
  | .neg => unary (- ·)
  | .not => unary (~~~ ·)
  | .add => binary (· + ·)
  | .sub => binary (· - ·)
  | .and => binary (· &&& ·)
  | .or => binary (· ||| ·)
  | .eq => binary fun left right => truth (left = right)
  | .gt => binary fun left right => truth ((right - left).toInt < 0)
  | .lt => binary fun left right => truth (0 < (right - left).toInt)
where
  unary (value : Word → Word) : List Word → Option (List Word)
    | top :: rest => some (value top :: rest)
    | [] => none
  binary (value : Word → Word → Word) : List Word → Option (List Word)
    | right :: left :: rest => some (value left right :: rest)
    | _ => none

def push (m : Separate) (value : Word) : Separate := { m with stack := value :: m.stack }

/-- The effect of a command. There is none on an empty stack that a word is popped from. -/
def step (m : Separate) : Command → Option Separate
  | .operator op => do return { m with stack := ← operate op m.stack }
  | .access .push segment index file =>
    if segment = .constant then some (m.push (BitVec.ofInt 16 index.toInt))
    else (Place.find? segment index.toInt.toNat file).map fun p => m.push (m.get p)
  | .access .pop segment index file =>
    match m.stack with
    | [] => none
    | top :: rest =>
      (Place.find? segment index.toInt.toNat file).map fun p => { m with stack := rest }.set top p
  | _ => none

/-- Runs the commands from the start. -/
def run (commands : List Command) : Option Separate := commands.foldlM step initial

theorem run_snoc {front : List Command} {c : Command} {next : Separate} :
    run (front ++ [c]) = some next ↔ ∃ m, run front = some m ∧ m.step c = some next := by
  simp [run, List.foldlM_append, Option.bind_eq_some_iff]

theorem get_set (m : Separate) (value : Word) (p q : Place) :
    (m.set value p).get q = if p = q then value else m.get q := by
  cases p <;> cases q <;> simp [get, set, Function.update_apply, eq_comm]

@[simp] theorem stack_set (m : Separate) (value : Word) (p : Place) :
    (m.set value p).stack = m.stack := by
  cases p <;> rfl

theorem length_operate {op : Operator} {stack after : List Word}
    (run : operate op stack = some after) : after.length ≤ stack.length := by
  have unary : ∀ value, operate.unary value stack = some after → after.length ≤ stack.length := by
    intro value run
    unfold operate.unary at run
    split at run
    · cases run
      exact Nat.le_refl _
    · cases run
  have binary : ∀ value, operate.binary value stack = some after →
      after.length ≤ stack.length := by
    intro value run
    unfold operate.binary at run
    split at run
    · cases run
      exact Nat.le_succ _
    · cases run
  cases op with
  | neg | not => exact unary _ run
  | add | sub | and | or | eq | gt | lt => exact binary _ run

/-- A command pushes one word at most. -/
theorem length_step {m next : Separate} {c : Command} (run : m.step c = some next) :
    next.stack.length ≤ m.stack.length + 1 := by
  cases c with
  | operator op =>
    obtain ⟨stack, operates, same⟩ := Option.bind_eq_some_iff.mp run
    cases same
    exact Nat.le_succ_of_le (length_operate operates)
  | access op segment index file =>
    cases op with
    | push =>
      dsimp only [step] at run
      split at run
      · cases run
        exact Nat.le_refl _
      · obtain ⟨p, -, rfl⟩ := Option.map_eq_some_iff.mp run
        exact Nat.le_refl _
    | pop =>
      dsimp only [step] at run
      split at run
      · cases run
      · next top rest split =>
        obtain ⟨p, -, rfl⟩ := Option.map_eq_some_iff.mp run
        rw [stack_set, split, List.length_cons]
        exact Nat.le_add_right _ 2
  | label | goto | ifGoto | function | call | ret => cases run

end Separate

end StackMachine

end HackToolchain
