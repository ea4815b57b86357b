import HackToolchain.Command.Basic
import HackToolchain.Machine.Ram
import HackToolchain.Platform

/-! The commands of the stack machine as computations on memory. Addresses are words, of which the
highest bit does not count, and nothing is checked: a command finds its operands wherever the
registers point to. -/

namespace HackToolchain.StackMachine

/-- Where the two scratch registers are, which the code of a command uses. -/
inductive Scratch where
  /-- In their cells, where the commands can see them. -/
  | inCells
  /-- Outside of memory. No command may address their cells. -/
  | apart

/-- A computation on memory that may get stuck. -/
abbrev Memory := StateT Ram Option

section

variable {α β : Type} {m : Memory α} {k : α → Memory β}

@[simp] theorem run_pure (a : α) (ram : Ram) : (pure a : Memory α) ram = some (a, ram) := rfl

theorem bind_apply (ram : Ram) : (m >>= k) ram = (m ram).bind fun (a, mid) => k a mid := rfl

@[simp] theorem map_apply (f : α → β) (ram : Ram) :
    (f <$> m) ram = (m ram).bind fun (a, mid) => some (f a, mid) := rfl

theorem run_bind {ram mid : Ram} {a : α} (h : m ram = some (a, mid)) :
    (m >>= k) ram = k a mid := by
  rw [bind_apply, h, Option.bind_some]

theorem bind_eq_some {ram after : Ram} {b : β} : (m >>= k) ram = some (b, after) ↔
    ∃ a mid, m ram = some (a, mid) ∧ k a mid = some (b, after) := by
  rw [bind_apply, Option.bind_eq_some_iff, Prod.exists]

end

theorem cellOf_ofNat (address : Nat) :
    cellOf (BitVec.ofNat 16 address) = BitVec.ofNat 15 address := by
  rw [cellOf, BitVec.setWidth_ofNat_of_le (by omega)]

/-! ### Registers -/

def sp : Cell := BitVec.ofNat 15 Platform.stackPointer

def lcl : Cell := BitVec.ofNat 15 Platform.localBase

def arg : Cell := BitVec.ofNat 15 Platform.argumentBase

def this : Cell := BitVec.ofNat 15 Platform.thisBase

def that : Cell := BitVec.ofNat 15 Platform.thatBase

/-- Holds the address of an access, and the frame pointer during a return. -/
def addressScratch : Cell := 13

/-- Holds the return address during a return. -/
def returnScratch : Cell := 14

section

variable (scratch : Scratch)

/-! ### Cells -/

def Scratch.addressable : Scratch → Cell → Bool
  | .inCells, _ => true
  | .apart, cell => cell ≠ addressScratch ∧ cell ≠ returnScratch

def load (cell : Cell) : Memory Word := fun ram =>
  if scratch.addressable cell then some (ram.read cell, ram) else none

def store (cell : Cell) (value : Word) : Memory Unit := fun ram =>
  if scratch.addressable cell then some ((), ram.write cell value) else none

@[simp] theorem run_load (cell : Cell) (ram : Ram) :
    load .inCells cell ram = some (ram.read cell, ram) := rfl

@[simp] theorem run_store (cell : Cell) (value : Word) (ram : Ram) :
    store .inCells cell value ram = some ((), ram.write cell value) := rfl

/-- Keeps a value in a scratch register. -/
def keep (cell : Cell) (value : Word) : Memory Unit :=
  match scratch with
  | .inCells => store scratch cell value
  | .apart => pure ()

/-- The value that was kept in a scratch register. -/
def regain (cell : Cell) (kept : Word) : Memory Word :=
  match scratch with
  | .inCells => load scratch cell
  | .apart => pure kept

/-! ### The stack -/

/-- Stores a word where the stack pointer points to and moves the pointer up. -/
def push (value : Word) : Memory Unit := do
  store scratch (cellOf (← load scratch sp)) value
  store scratch sp ((← load scratch sp) + 1)

/-- Moves the stack pointer down and takes the word that it points to then. -/
def pop : Memory Word := do
  store scratch sp ((← load scratch sp) - 1)
  load scratch (cellOf (← load scratch sp))

/-! ### Operators -/

/-- All ones for true. -/
def truth (b : Bool) : Word := if b then -1 else 0

/-- The value of an operator on the words that it takes off the stack, the upper one last. The
order of two words is that of the sign of their difference, which may wrap. -/
def operate : Operator → Memory Unit
  | .neg => do push scratch (-(← pop scratch))
  | .not => do push scratch (~~~(← pop scratch))
  | .add => binary (· + ·)
  | .sub => binary (· - ·)
  | .and => binary (· &&& ·)
  | .or => binary (· ||| ·)
  | .eq => binary fun left right => truth (left = right)
  | .gt => binary fun left right => truth ((right - left).toInt < 0)
  | .lt => binary fun left right => truth (0 < (right - left).toInt)
where
  binary (value : Word → Word → Word) : Memory Unit := do
    let right ← pop scratch
    let left ← pop scratch
    push scratch (value left right)

/-! ### Segments -/

/-- The address at an index from the one in a register. -/
def offset (base : Cell) (index : Nat) : Memory Word := do
  return (← load scratch base) + BitVec.ofNat 16 index

/-- The cell that an address names; the address is kept in the scratch register. -/
def addressed (address : Word) : Memory Cell := do
  keep scratch addressScratch address
  return cellOf address

def indirect (base : Cell) (index : Nat) : Memory Cell := do
  addressed scratch (← offset scratch base index)

variable (statics : String → Nat → Cell)

/-- The cell of an index of a segment. A constant has none. -/
def segmentCell (segment : Segment) (index : Nat) (file : String) : Memory Cell :=
  match segment with
  | .argument => indirect scratch arg index
  | .localVar => indirect scratch lcl index
  | .this => indirect scratch this index
  | .that => indirect scratch that index
  | .temp => addressed scratch (BitVec.ofNat 16 (Platform.tempBase + index))
  | .pointer => pure (BitVec.ofNat 15 (Platform.thisBase + index))
  | .staticVar => pure (statics file index)
  | .constant => failure

def access (op : StackOp) (segment : Segment) (index : Nat) (file : String) : Memory Unit :=
  match op with
  | .push =>
    if segment = .constant then push scratch (BitVec.ofNat 16 index)
    else do
      let cell ← segmentCell scratch statics segment index file
      push scratch (← load scratch cell)
  | .pop => do
    let cell ← segmentCell scratch statics segment index file
    store scratch cell (← pop scratch)

/-! ### Frames -/

def pushZeros : Nat → Memory Unit
  | 0 => pure ()
  | n + 1 => do
    push scratch 0
    pushZeros n

/-- Saves the return address and the four registers, and sets up the registers of the callee. -/
def enter (args : Nat) (back : Word) : Memory Unit := do
  push scratch back
  push scratch (← load scratch lcl)
  push scratch (← load scratch arg)
  push scratch (← load scratch this)
  push scratch (← load scratch that)
  store scratch arg ((← load scratch sp) - BitVec.ofNat 16 (args + Platform.frameSize))
  store scratch lcl (← load scratch sp)

/-- Restores a register from the cell below the kept frame pointer, which moves down. -/
def restore (register : Cell) (kept : Word) : Memory Word := do
  let frame := (← regain scratch addressScratch kept) - 1
  keep scratch addressScratch frame
  store scratch register (← load scratch (cellOf frame))
  return frame

/-- Puts the result in place of the first argument and takes the frame down. The return address is
taken first, because without arguments the result overwrites it. -/
def takeDown : Memory Word := do
  let frame ← load scratch lcl
  keep scratch addressScratch frame
  let back ← load scratch (cellOf (frame - BitVec.ofNat 16 Platform.frameSize))
  keep scratch returnScratch back
  let result ← pop scratch
  store scratch (cellOf (← load scratch arg)) result
  store scratch sp ((← load scratch arg) + 1)
  let frame ← restore scratch that frame
  let frame ← restore scratch this frame
  let frame ← restore scratch arg frame
  let _ ← restore scratch lcl frame
  return back

/-- Takes the frame down and gives the address to return to. -/
def leave : Memory Word := do
  regain scratch returnScratch (← takeDown scratch)

end

end HackToolchain.StackMachine
