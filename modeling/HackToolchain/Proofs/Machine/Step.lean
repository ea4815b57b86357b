import HackToolchain.Proofs.Machine.Execution

/-! What one step of the processor does, read off the spelling of the instruction: the computation
as an expression on the registers and the addressed cell, the letters of the destinations, and the
condition that the jump names. The encoding of an instruction plays no part in this. -/

namespace HackToolchain.Cpu

/-- The value that a computation spells; `M` is the cell that the address register names. -/
def value (cpu : Cpu) (comp : String) : Word :=
  Mnemonic.value cpu.d cpu.a (cpu.peek cpu.a) comp.toList

/-- What a compute instruction makes of a processor. Everything is read before anything is stored:
the value, the addressed cell, and the target of the jump, which is the address register. -/
structure Executes (dest comp jmp : String) (before after : Cpu) : Prop where
  a : after.a = if 'A' ∈ dest.toList then before.value comp else before.a
  d : after.d = if 'D' ∈ dest.toList then before.value comp else before.d
  ram : ∀ cell, after.ram.read cell =
    if 'M' ∈ dest.toList ∧ cell = cellOf before.a then before.value comp
    else before.ram.read cell
  pc : after.pc =
    if Mnemonic.condition jmp (before.value comp) then before.a.toNat else before.pc + 1
  rom : after.rom = before.rom
  /-- A jump may enter the loop in which the processor is parked. -/
  halted : after.halted =
    (Mnemonic.condition jmp (before.value comp) && before.isParked before.a)

variable {cpu : Cpu} {word : Word}

theorem next?_of_running (running : cpu.halted = false) (here : cpu.rom[cpu.pc]? = some word) :
    cpu.next? = some word := by
  unfold next?
  rw [running]
  exact here

/-- A result in its destinations, as `Executes` tells it. -/
theorem read_put (s : Store) (dest : String) (out : Word) (cell : Cell) :
    (s.put dest out).ram.read cell =
      if 'M' ∈ dest.toList ∧ cell = cellOf s.a then out else s.ram.read cell := by
  unfold Store.put
  by_cases addressed : 'M' ∈ dest.toList
  · simp [addressed, Ram.read_write, eq_comm]
  · simp [addressed]

theorem value_cpu (s : Store) (rom : Array Word) (pc : Nat) (comp : String) :
    (s.cpu rom pc).value comp = s.value comp := rfl

theorem executes_execute {s : Store} {rom : Array Word} {pc : Nat} {dest comp jmp : String}
    (encoded : Mnemonic.encode dest comp jmp = .ok word) :
    Executes dest comp jmp (s.cpu rom pc) ((s.cpu rom pc).execute word) := by
  have stored := read_put s dest (s.value comp)
  rw [Store.execute_compute encoded]
  constructor
  · rw [value_cpu]
    split <;> simp [Store.jumped, Store.cpu, Store.put]
  · rw [value_cpu]
    split <;> simp [Store.jumped, Store.cpu, Store.put]
  · intro cell
    rw [value_cpu]
    split <;> exact stored cell
  · rw [value_cpu]
    split <;> rfl
  · split <;> rfl
  · rw [value_cpu]
    split
    · next taken =>
      rw [taken]
      rfl
    · next passed =>
      rw [Bool.eq_false_iff.mpr passed]
      rfl

theorem executes_step {dest comp jmp : String} (running : cpu.halted = false)
    (here : cpu.rom[cpu.pc]? = some word) (encoded : Mnemonic.encode dest comp jmp = .ok word) :
    Executes dest comp jmp cpu cpu.step := by
  have start := Cpu.eq_cpu running
  rw [step_eq_execute (next?_of_running running here), start]
  exact executes_execute encoded

theorem step_address (running : cpu.halted = false) (here : cpu.rom[cpu.pc]? = some word)
    (small : word.toNat ≤ 32767) : cpu.step = { cpu with a := word, pc := cpu.pc + 1 } := by
  have positive : word.msb = false := by
    rw [BitVec.msb_eq_false_iff_two_mul_lt]
    omega
  rw [step_eq_execute (next?_of_running running here), execute, positive]
  rfl

/-- In a program that fits in the ROM the program counter stays a word: the next address is at most
the size of the program, and the target of a jump is a word. -/
theorem pc_step_lt (fits : cpu.rom.size ≤ Layout.capacity) (running : cpu.halted = false)
    (here : cpu.rom[cpu.pc]? = some word) : cpu.step.pc < 65536 := by
  have inside : cpu.pc < cpu.rom.size := (Array.getElem?_eq_some_iff.mp here).1
  have next : cpu.pc + 1 < 65536 := by
    unfold Layout.capacity at fits
    omega
  rw [step_eq_execute (next?_of_running running here)]
  unfold execute
  split
  · unfold compute
    dsimp only
    split
    · exact cpu.a.isLt
    · exact next
  · exact next

/-- A step executes the instruction at the program counter as it is spelled, or loads the address
that stands there, and changes nothing else. -/
theorem step_eq_spelled (fits : cpu.rom.size ≤ Layout.capacity) (running : cpu.halted = false)
    (here : cpu.rom[cpu.pc]? = some word) :
    cpu.step.pc < 65536 ∧
    (∀ dest comp jmp, Mnemonic.encode dest comp jmp = .ok word →
      Executes dest comp jmp cpu cpu.step) ∧
    (word.toNat ≤ 32767 → cpu.step = { cpu with a := word, pc := cpu.pc + 1 }) := by
  refine ⟨pc_step_lt fits running here, ?_, step_address running here⟩
  intro dest comp jmp encoded
  exact executes_step running here encoded

/-- A processor before `AM=M+1;JMP`, in a memory of zeros. -/
def beforeDoubleStore : Cpu := { load ⟨#[0xFDEF]⟩ with a := 7 }

/-- The cell that is stored in and the target of the jump are those of the old address. -/
theorem step_eq_spelled_doubleStore :
    Mnemonic.encode "AM" "M+1" "JMP" = .ok 0xFDEF ∧ beforeDoubleStore.step.a = 1 ∧
      beforeDoubleStore.step.ram.read 7 = 1 ∧ beforeDoubleStore.step.pc = 7 := by
  have encoded : Mnemonic.encode "AM" "M+1" "JMP" = .ok 0xFDEF := by decide
  have fits : beforeDoubleStore.rom.size ≤ Layout.capacity := by decide
  have running : beforeDoubleStore.halted = false := rfl
  have here : beforeDoubleStore.rom[beforeDoubleStore.pc]? = some 0xFDEF := rfl
  have executes := (step_eq_spelled fits running here).2.1 "AM" "M+1" "JMP" encoded
  have value : beforeDoubleStore.value "M+1" = 1 := by
    show Ram.zeroed.read _ + 1 = 1
    rw [Ram.read_zeroed]
    rfl
  refine ⟨encoded, ?_, ?_, ?_⟩
  · rw [executes.a, value]
    rfl
  · rw [executes.ram, value]
    rfl
  · rw [executes.pc]
    rfl

end HackToolchain.Cpu
