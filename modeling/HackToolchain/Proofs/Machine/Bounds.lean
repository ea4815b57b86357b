import HackToolchain.Proofs.Machine.Halting

/-! The processor stays inside of its bounds, whatever it is asked to do: the program counter is a
word and can be counted up where an instruction stands, the cells that are read and written are
those of the memory, and the program is never written. -/

namespace HackToolchain.Cpu

/-- What a processor can be asked to do. -/
inductive Request where
  | poke (address value : Word)
  | step
  | run (budget : Nat)

def serve (cpu : Cpu) : Request → Cpu
  | .poke address value => cpu.poke address value
  | .step => cpu.step
  | .run budget => (cpu.run budget).2

/-- The processor after some requests in a row. -/
def after (cpu : Cpu) (requests : List Request) : Cpu := requests.foldl serve cpu

/-- A processor with the program of an image, at an address that is a word. -/
structure Carries (cpu : Cpu) (image : Image) : Prop where
  rom : cpu.rom = image.words
  pc : cpu.pc < 2 ^ 16

/-- Every access of a processor to its memory is to one of the cells: the index that an address
stands for, without its highest bit, is that of a cell, and a step writes at most the cell that the
address register names. -/
structure AccessesCells (cpu : Cpu) : Prop where
  size : cpu.ram.cells.toArray.size = 32768
  cell : ∀ address : Word, ∃ inside : (address &&& 0x7FFF#16).toNat < cpu.ram.cells.toArray.size,
    cpu.peek address = cpu.ram.cells.toArray[(address &&& 0x7FFF#16).toNat] ∧
      ∀ value, (cpu.poke address value).ram.cells.toArray =
        cpu.ram.cells.toArray.set (address &&& 0x7FFF#16).toNat value inside
  step : cpu.step.ram = cpu.ram ∨ ∃ value, cpu.step.ram = (cpu.poke cpu.a value).ram

variable {cpu : Cpu} {image : Image}

/-! ### Memory -/

theorem toNat_and_eq (address : Word) : (address &&& 0x7FFF#16).toNat = (cellOf address).toNat := by
  have low : (0x7FFF#16).toNat = 2 ^ 15 - 1 := rfl
  rw [BitVec.toNat_and, low, Nat.and_two_pow_sub_one_eq_mod, cellOf, BitVec.toNat_setWidth]

theorem step_ram (cpu : Cpu) :
    cpu.step.ram = cpu.ram ∨ ∃ value, cpu.step.ram = (cpu.poke cpu.a value).ram := by
  have stored : ∀ word out, (cpu.store word out).ram = cpu.ram ∨
      ∃ value, (cpu.store word out).ram = (cpu.poke cpu.a value).ram := by
    intro word out
    unfold store poke
    dsimp only
    split
    · exact .inr ⟨out, rfl⟩
    · exact .inl rfl
  cases next : cpu.next? with
  | none =>
    left
    rw [step, next]
  | some word =>
    rw [step_eq_execute next]
    unfold execute compute
    dsimp only
    split
    · split
      · exact stored word _
      · exact stored word _
    · exact .inl rfl

theorem accessesCells (cpu : Cpu) : cpu.AccessesCells where
  size := cpu.ram.cells.size_toArray
  cell address := by
    have index := toNat_and_eq address
    have inside : (address &&& 0x7FFF#16).toNat < cpu.ram.cells.toArray.size := by
      rw [index, cpu.ram.cells.size_toArray]
      exact (cellOf address).isLt
    refine ⟨inside, ?_, fun value => ?_⟩
    · simp only [index]
      rfl
    · simp only [index]
      rfl
  step := step_ram cpu

/-! ### Requests in a row -/

theorem Carries.load (image : Image) : (Cpu.load image).Carries image := ⟨rfl, Nat.two_pow_pos 16⟩

theorem Carries.next_lt (h : cpu.Carries image) (fits : image.size ≤ Layout.capacity)
    (next : cpu.next?.isSome) : cpu.pc + 1 < 2 ^ 16 := by
  obtain ⟨word, here⟩ := Option.isSome_iff_exists.mp next
  have inside : cpu.pc < cpu.rom.size := (Array.getElem?_eq_some_iff.mp (rom_of_next? here)).1
  rw [h.rom] at inside
  unfold Image.size Layout.capacity at fits
  omega

theorem Carries.step (h : cpu.Carries image) (fits : image.size ≤ Layout.capacity) :
    cpu.step.Carries image := by
  refine ⟨(rom_step cpu).trans h.rom, ?_⟩
  cases next : cpu.next? with
  | none =>
    rw [Cpu.step, next]
    exact h.pc
  | some word =>
    have small : cpu.rom.size ≤ Layout.capacity := by
      rw [h.rom]
      exact fits
    exact pc_step_lt small (running_of_next? next) (rom_of_next? next)

theorem Carries.steps (h : cpu.Carries image) (fits : image.size ≤ Layout.capacity) (n : Nat) :
    (cpu.after (List.replicate n .step)).Carries image := by
  induction n generalizing cpu with
  | zero => exact h
  | succ n ih => exact ih (h.step fits)

theorem exists_runFrom_eq (cpu : Cpu) (budget done : Nat) : ∃ n ≤ budget,
    (cpu.runFrom done budget).2 = cpu.after (List.replicate n .step) := by
  induction budget generalizing cpu done with
  | zero => exact ⟨0, le_rfl, rfl⟩
  | succ budget ih =>
    rw [runFrom]
    split
    · obtain ⟨n, most, same⟩ := ih cpu.step (done + 1)
      exact ⟨n + 1, Nat.succ_le_succ most, same⟩
    · exact ⟨1, Nat.le_add_left 1 budget, rfl⟩

/-- A run is some steps in a row. -/
theorem exists_run_eq (cpu : Cpu) (budget : Nat) : ∃ n ≤ budget,
    (cpu.run budget).2 = cpu.after (List.replicate n .step) :=
  exists_runFrom_eq cpu budget 0

theorem Carries.serve (h : cpu.Carries image) (fits : image.size ≤ Layout.capacity)
    (request : Request) : (cpu.serve request).Carries image := by
  cases request with
  | poke address value => exact ⟨h.rom, h.pc⟩
  | step => exact h.step fits
  | run budget =>
    obtain ⟨n, -, same⟩ := exists_run_eq cpu budget
    show (cpu.run budget).2.Carries image
    rw [same]
    exact h.steps fits n

theorem Carries.after (h : cpu.Carries image) (fits : image.size ≤ Layout.capacity)
    (requests : List Request) : (cpu.after requests).Carries image := by
  induction requests generalizing cpu with
  | nil => exact h
  | cons request rest ih => exact ih (h.serve fits request)

end HackToolchain.Cpu
