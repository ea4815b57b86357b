import HackToolchain.Machine.Image
import HackToolchain.Machine.Ram
import HackToolchain.Platform

/-! The processor: its registers, the effect of an instruction, and runs of a bounded number of
steps. It halts when it leaves the program, or when a jump enters the loop of two instructions
that loads its own address and jumps there. -/

namespace HackToolchain

/-- The arithmetic unit. From the highest to the lowest, the control bits clear and invert the
first operand, clear and invert the second, choose the sum over the conjunction, and invert the
result. -/
def alu (control : BitVec 6) (x y : Word) : Word :=
  let x := if control.getLsbD 5 then 0 else x
  let x := if control.getLsbD 4 then ~~~x else x
  let y := if control.getLsbD 3 then 0 else y
  let y := if control.getLsbD 2 then ~~~y else y
  let out := if control.getLsbD 1 then x + y else x &&& y
  if control.getLsbD 0 then ~~~out else out

/-- Whether a jump with these condition bits is taken on a result. -/
def jumpTaken (condition : BitVec 3) (out : Word) : Bool :=
  condition.getLsbD 2 && out.msb || condition.getLsbD 1 && out == 0 ||
    condition.getLsbD 0 && ! out.msb && out != 0

structure Cpu where
  rom : Array Word
  ram : Ram
  a : Word
  d : Word
  pc : Nat
  halted : Bool

namespace Cpu

/-- A machine with the program loaded, everything else zero. -/
def load (image : Image) : Cpu := ⟨image.words, .zeroed, 0, 0, 0, false⟩

/-! ### Memory -/

/-- The word in the addressed cell. -/
def peek (cpu : Cpu) (address : Word) : Word := cpu.ram.read (cellOf address)

def poke (cpu : Cpu) (address value : Word) : Cpu :=
  { cpu with ram := cpu.ram.write (cellOf address) value }

def sp (cpu : Cpu) : Word := cpu.peek (BitVec.ofNat 16 Platform.stackPointer)

/-- The words from the first stack cell up to the stack pointer, the bottom first. -/
def stack (cpu : Cpu) : List Word :=
  (List.range' Platform.stackBase (cpu.sp.toNat - Platform.stackBase)).map fun address =>
    cpu.peek (BitVec.ofNat 16 address)

def stackTop? (cpu : Cpu) : Option Word :=
  if Platform.stackBase < cpu.sp.toNat then some (cpu.peek (cpu.sp - 1)) else none

/-! ### Steps -/

/-- The second operand of a compute instruction. -/
def operand (cpu : Cpu) (word : Word) : Word :=
  if word.getLsbD 12 then cpu.peek cpu.a else cpu.a

/-- The result of a compute instruction. -/
def result (cpu : Cpu) (word : Word) : Word :=
  alu (word.extractLsb' 6 6) cpu.d (cpu.operand word)

/-- Stores a result in the destinations of a compute instruction. -/
def store (cpu : Cpu) (word out : Word) : Cpu :=
  { cpu with
    ram := if word.getLsbD 3 then cpu.ram.write (cellOf cpu.a) out else cpu.ram
    a := if word.getLsbD 5 then out else cpu.a
    d := if word.getLsbD 4 then out else cpu.d }

/-- Whether a jump to the address in a word would stay in the loop of two instructions that loads
this address and jumps there. -/
def isParked (cpu : Cpu) (target : Word) : Bool :=
  target.toNat + 1 == cpu.pc && cpu.rom[target.toNat]? == some target

/-- The effect of a compute instruction. All operands are taken before anything is stored. -/
def compute (cpu : Cpu) (word : Word) : Cpu :=
  let out := cpu.result word
  if jumpTaken (word.extractLsb' 0 3) out then
    let target := cpu.a
    let parked := cpu.isParked target
    { cpu.store word out with pc := target.toNat, halted := parked }
  else
    let next := cpu.pc + 1
    { cpu.store word out with pc := next }

/-- The effect of an instruction: a word below 32768 is loaded into the address register. -/
def execute (cpu : Cpu) (word : Word) : Cpu :=
  if word.msb then cpu.compute word else { cpu with a := word, pc := cpu.pc + 1 }

/-- The word of the next instruction, if the machine can go on. -/
def next? (cpu : Cpu) : Option Word := if cpu.halted then none else cpu.rom[cpu.pc]?

/-- Executes the next instruction. Without one the machine halts. -/
def step (cpu : Cpu) : Cpu :=
  match cpu.next? with
  | some word => cpu.execute word
  | none => { cpu with halted := true }

/-- Runs until no instruction is left or the budget is spent, counting on from `done`. -/
def runFrom (done : Nat) : Nat → Cpu → Option Nat × Cpu
  | 0, cpu => (none, cpu)
  | budget + 1, cpu =>
    if cpu.next?.isSome then runFrom (done + 1) budget cpu.step else (some done, cpu.step)

/-- Runs for a number of steps at most. The result is the number of instructions executed before
the machine halted; a machine is only seen to halt while a step of the budget is left. -/
def run (budget : Nat) (cpu : Cpu) : Option Nat × Cpu := runFrom 0 budget cpu

end Cpu

end HackToolchain
