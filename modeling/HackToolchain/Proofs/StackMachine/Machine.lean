import HackToolchain.Command.Basic
import HackToolchain.Lowering.Session
import HackToolchain.Proofs.StackMachine.Memory
import HackToolchain.Text.Upper

/-! The stack machine: a list of commands with the index of the next one, and the memory. It knows
of the code that it is translated to only where the static variables are and what addresses stand
for the commands, since these are seen in memory. -/

namespace HackToolchain

/-- Whether a command declares the target of a jump. A label is declared in upper case. -/
def Command.declares (name : String) : Command → Bool
  | label declared => Text.upper declared = name
  | function declared _ => declared = name
  | _ => false

/-- The name of the function or the label that a command may go to. -/
def Command.jumpsTo : Command → Option String
  | goto name | ifGoto name | call name _ => some name
  | _ => none

namespace StackMachine

structure State where
  /-- The index of the next command. -/
  next : Nat
  ram : Ram

/-- What a program can see of its translation. -/
structure Placement where
  statics : String → Nat → Cell
  /-- The address that stands for the command at an index. -/
  address : Nat → Nat

variable (scratch : Scratch) (place : Placement) (commands : List Command)

/-- The index of the command that declares a name. -/
def target (name : String) : Memory Nat := fun ram =>
  (commands.findIdx? (·.declares name)).map fun index => (index, ram)

variable {commands} in
theorem target_eq_some {name : String} {ram after : Ram} {index : Nat} :
    target commands name ram = some (index, after) ↔
      commands.findIdx? (·.declares name) = some index ∧ after = ram := by
  rw [target, Option.map_eq_some_iff]
  constructor
  · rintro ⟨found, there, same⟩
    cases same
    exact ⟨there, rfl⟩
  · rintro ⟨there, rfl⟩
    exact ⟨index, there, rfl⟩

/-- The index of the first command that an address stands for, or the end of the program. -/
def resume (back : Word) : Memory Nat := fun ram =>
  ((List.range (commands.length + 1)).find? fun index => place.address index = back.toNat).map
    fun index => (index, ram)

/-- The effect of the command at an index, and the index of the next command. -/
def execute (index : Nat) : Command → Memory Nat
  | .operator op => do
    operate scratch op
    return index + 1
  | .access op segment offset file => do
    access scratch place.statics op segment offset.toInt.toNat file
    return index + 1
  | .label _ => return index + 1
  | .goto name => target commands name
  | .ifGoto name => do
    if (← pop scratch) = 0 then return index + 1 else target commands name
  | .function _ locals => do
    pushZeros scratch locals.toNat
    return index + 1
  | .call name args => do
    enter scratch args.toNat (BitVec.ofNat 16 (place.address (index + 1)))
    target commands name
  | .ret => do resume place commands (← leave scratch)

/-- Executes the next command. Without one, and in a command that is stuck, there is no step. -/
def step (state : State) : Option State := do
  let command ← commands[state.next]?
  let (next, ram) ← execute scratch place commands state.next command state.ram
  return ⟨next, ram⟩

/-- The state after a number of steps. -/
def run : Nat → State → Option State
  | 0, state => some state
  | count + 1, state => do run count (← step scratch place commands state)

/-- Sets up the stack and calls the entry function, which returns to the first command. -/
def boot : Memory Nat := do
  store scratch sp (BitVec.ofNat 16 Platform.stackBase)
  enter scratch 0 (BitVec.ofNat 16 (place.address 0))
  target commands Platform.entryFunction

/-- The state in which a program starts with some memory. -/
def start (options : Options) (ram : Ram) : Option State :=
  if options.bootstrap then
    (boot scratch place commands ram).map fun (next, ram) => ⟨next, ram⟩
  else some ⟨0, ram⟩

/-- The state after a number of steps from the start. -/
def runProgram (options : Options) (ram : Ram) (count : Nat) : Option State := do
  run scratch place commands count (← start scratch place commands options ram)

/-! ### Computations that do not get stuck -/

def Total {α : Type} (m : Memory α) : Prop := ∀ ram, ∃ a after, m ram = some (a, after)

section

variable {commands}

theorem Total.bind {α β : Type} {m : Memory α} {k : α → Memory β} (h : Total m)
    (rest : ∀ a, Total (k a)) : Total (m >>= k) := by
  intro ram
  obtain ⟨a, mid, first⟩ := h ram
  obtain ⟨b, after, last⟩ := rest a mid
  exact ⟨b, after, bind_eq_some.mpr ⟨a, mid, first, last⟩⟩

theorem total_pure {α : Type} (a : α) : Total (pure a) := fun ram => ⟨a, ram, rfl⟩

theorem total_load (cell : Cell) : Total (load .inCells cell) := fun ram => ⟨_, ram, rfl⟩

theorem total_store (cell : Cell) (value : Word) : Total (store .inCells cell value) :=
  fun _ => ⟨(), _, rfl⟩

theorem total_push (value : Word) : Total (push .inCells value) :=
  (total_load sp).bind fun pointer => (total_store (cellOf pointer) value).bind fun _ =>
    (total_load sp).bind fun top => total_store sp (top + 1)

theorem total_pop : Total (pop .inCells) :=
  (total_load sp).bind fun pointer => (total_store sp (pointer - 1)).bind fun _ =>
    (total_load sp).bind fun top => total_load (cellOf top)

theorem total_operate (op : Operator) : Total (operate .inCells op) := by
  have binary : ∀ value, Total (operate.binary .inCells value) := fun value =>
    total_pop.bind fun right => total_pop.bind fun left => total_push (value left right)
  cases op with
  | neg | not => exact total_pop.bind fun top => total_push _
  | add | sub | and | or | eq | gt | lt => exact binary _

theorem total_pushZeros (count : Nat) : Total (pushZeros .inCells count) := by
  induction count with
  | zero => exact total_pure ()
  | succ count ih => exact (total_push 0).bind fun _ => ih

theorem total_enter (args : Nat) (back : Word) : Total (enter .inCells args back) :=
  (total_push back).bind fun _ =>
    (total_load lcl).bind fun value => (total_push value).bind fun _ =>
    (total_load arg).bind fun value => (total_push value).bind fun _ =>
    (total_load this).bind fun value => (total_push value).bind fun _ =>
    (total_load that).bind fun value => (total_push value).bind fun _ =>
    (total_load sp).bind fun _ => (total_store arg _).bind fun _ =>
    (total_load sp).bind fun _ => total_store lcl _

theorem total_target {name : String} (declared : ∃ c ∈ commands, c.declares name) :
    Total (target commands name) := by
  intro ram
  have found : (commands.findIdx? (·.declares name)).isSome := by
    rw [List.findIdx?_isSome, List.any_eq_true]
    exact declared
  obtain ⟨index, there⟩ := Option.isSome_iff_exists.mp found
  exact ⟨index, ram, target_eq_some.mpr ⟨there, rfl⟩⟩

/-- A program starts if its entry function is there when it is called. -/
theorem exists_start {options : Options} (place : Placement) (ram : Ram)
    (entry : options.bootstrap = true → ∃ c ∈ commands, c.declares Platform.entryFunction) :
    (start .inCells place commands options ram).isSome := by
  rw [start]
  split
  · next bootstrap =>
    have booted : Total (boot .inCells place commands) :=
      (total_store sp _).bind fun _ => (total_enter 0 _).bind fun _ =>
        total_target (entry bootstrap)
    obtain ⟨index, after, same⟩ := booted ram
    rw [same]
    rfl
  · rfl

end

end StackMachine

end HackToolchain
