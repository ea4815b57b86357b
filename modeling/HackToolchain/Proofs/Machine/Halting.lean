import HackToolchain.Proofs.Machine.Step
import Mathlib.Dynamics.PeriodicPts.Defs

/-! When the processor is rightly halted by a jump: it stands in a loop of two instructions, and
without its halted flag it would go round there for ever, with the data register and the memory as
they are. The halting jump looks at the place and the word before it only, so this depends on what
the jumping instruction stores. -/

namespace HackToolchain.Cpu

open Function

/-- A step of the processor without its halted flag. -/
def resume (cpu : Cpu) : Cpu := { cpu with halted := false }.step

/-- After `n` steps without the halted flag the processor is at its place in the loop of two
instructions at `target`, with the data register and the memory as before. -/
structure InLoop (cpu : Cpu) (target n : Nat) : Prop where
  pc : (resume^[n] cpu).pc = target + n % 2
  d : (resume^[n] cpu).d = cpu.d
  ram : (resume^[n] cpu).ram = cpu.ram

/-- Without its halted flag the processor alternates for ever between `target` and the next
address and changes nothing. -/
def Idles (cpu : Cpu) (target : Nat) : Prop := ∀ n, cpu.InLoop target n

variable {cpu : Cpu} {word : Word} {target : Nat}

/-! ### The halting jump -/

theorem running_of_next? (here : cpu.next? = some word) : cpu.halted = false := by
  unfold next? at here
  cases halted : cpu.halted with
  | false => rfl
  | true => simp [halted] at here

theorem rom_of_next? (here : cpu.next? = some word) : cpu.rom[cpu.pc]? = some word := by
  unfold next? at here
  rw [running_of_next? here] at here
  exact here

theorem pc_of_isParked (parked : cpu.isParked cpu.a = true) : cpu.a.toNat + 1 = cpu.pc := by
  unfold isParked at parked
  rw [Bool.and_eq_true, beq_iff_eq] at parked
  exact parked.1

/-- A jump that halts goes back by one place, to a word that is its own address. -/
theorem isParked_of_halts (here : cpu.next? = some word) (halts : cpu.step.halted = true) :
    word.msb = true ∧ jumpTaken (word.extractLsb' 0 3) (cpu.result word) = true ∧
      cpu.isParked cpu.a = true := by
  have running := running_of_next? here
  rw [step_eq_execute here] at halts
  unfold execute at halts
  split at halts
  · next isCompute =>
    unfold compute at halts
    dsimp only at halts
    split at halts
    · next taken => exact ⟨isCompute, taken, halts⟩
    · exact absurd (halts.symm.trans running) (by decide)
  · exact absurd (halts.symm.trans running) (by decide)

/-- The state after a halting jump. -/
theorem step_of_halts (here : cpu.next? = some word) (halts : cpu.step.halted = true) :
    cpu.step = { cpu.store word (cpu.result word) with pc := cpu.a.toNat, halted := true } := by
  obtain ⟨isCompute, taken, parked⟩ := isParked_of_halts here halts
  rw [step_eq_execute here]
  unfold execute compute
  simp only [isCompute, taken, parked, if_true]

/-! ### Steps without the halted flag -/

theorem rom_step (cpu : Cpu) : cpu.step.rom = cpu.rom := by
  unfold step
  split
  · unfold execute compute
    dsimp only
    split
    · split <;> rfl
    · rfl
  · rfl

theorem rom_resume (cpu : Cpu) (n : Nat) : (resume^[n] cpu).rom = cpu.rom := by
  induction n generalizing cpu with
  | zero => rfl
  | succ n ih =>
    rw [iterate_succ_apply, ih]
    exact rom_step { cpu with halted := false }

/-- Only the halted flag is lost between steps. -/
theorem resume_congr {other : Cpu} (rom : cpu.rom = other.rom) (ram : cpu.ram = other.ram)
    (a : cpu.a = other.a) (d : cpu.d = other.d) (pc : cpu.pc = other.pc) :
    cpu.resume = other.resume := by
  unfold resume
  rw [rom, ram, a, d, pc]

/-- A compute instruction that is followed by an instruction before it has jumped there. -/
theorem a_of_back {back : Nat} (here : cpu.rom[cpu.pc]? = some word) (isCompute : word.msb = true)
    (before : back ≤ cpu.pc) (goes : cpu.resume.pc = back) : cpu.a.toNat = back := by
  have next : { cpu with halted := false }.next? = some word := here
  unfold resume at goes
  rw [step_eq_execute next] at goes
  unfold execute compute at goes
  dsimp only at goes
  rw [if_pos isCompute] at goes
  split at goes
  · exact goes
  · have later : cpu.pc + 1 = back := goes
    omega

/-! ### Loops of two instructions -/

/-- A loop that comes back to the same state goes on for ever. -/
theorem idles_of_periodic (returns : IsPeriodicPt resume 2 cpu) (first : cpu.pc = target)
    (second : cpu.resume.pc = target + 1) (d : cpu.resume.d = cpu.d)
    (ram : cpu.resume.ram = cpu.ram) : cpu.Idles target := by
  intro n
  have same := returns.iterate_mod_apply n
  rcases Nat.mod_two_eq_zero_or_one n with even | odd
  · rw [even] at same
    constructor
    · rw [← same, even, Nat.add_zero]
      exact first
    · rw [← same]
      rfl
    · rw [← same]
      rfl
  · rw [odd] at same
    constructor
    · rw [← same, odd]
      exact second
    · rw [← same]
      exact d
    · rw [← same]
      exact ram

/-- If the first two rounds change nothing, every round begins in the same state. -/
theorem idles_of_two_rounds (here : cpu.rom[target + 1]? = some word)
    (isCompute : word.msb = true) (rounds : ∀ n ≤ 4, cpu.InLoop target n) :
    cpu.Idles target := by
  -- The address register is known only where the next step goes back, which it does by a jump.
  have addressed : ∀ n, n = 1 ∨ n = 3 → (resume^[n] cpu).a.toNat = target := by
    intro n odd
    have inLoop := rounds n (by omega)
    have back := (rounds (n + 1) (by omega)).pc
    rw [iterate_succ_apply', show (n + 1) % 2 = 0 by omega, Nat.add_zero] at back
    have place : (resume^[n] cpu).pc = target + 1 := by
      rw [inLoop.pc, show n % 2 = 1 by omega]
    have there : (resume^[n] cpu).rom[(resume^[n] cpu).pc]? = some word := by
      rw [rom_resume, place]
      exact here
    exact a_of_back there isCompute (by omega) back
  have returns : resume^[4] cpu = resume^[2] cpu := by
    rw [iterate_succ_apply' resume 3, iterate_succ_apply' resume 1]
    apply resume_congr
    · rw [rom_resume, rom_resume]
    · rw [(rounds 3 (by omega)).ram, (rounds 1 (by omega)).ram]
    · apply BitVec.eq_of_toNat_eq
      rw [addressed 3 (by omega), addressed 1 (by omega)]
    · rw [(rounds 3 (by omega)).d, (rounds 1 (by omega)).d]
    · rw [(rounds 3 (by omega)).pc, (rounds 1 (by omega)).pc]
  have periodic : IsPeriodicPt resume 2 (resume^[2] cpu) := returns
  intro n
  by_cases few : n ≤ 4
  · exact rounds n few
  · obtain ⟨m, rfl⟩ : ∃ m, n = m + 2 := ⟨n - 2, by omega⟩
    have same : resume^[m + 2] cpu = resume^[m % 2 + 2] cpu := by
      rw [iterate_add_apply, iterate_add_apply, periodic.iterate_mod_apply]
    have inLoop := rounds (m % 2 + 2) (by omega)
    constructor
    · rw [same, inLoop.pc]
      omega
    · rw [same, inLoop.d]
    · rw [same, inLoop.ram]

/-- A halting jump to an address below 32768 that leaves the data register and the memory alone
leads back to the state before it. -/
theorem idles_of_unchanged (here : cpu.next? = some word) (halts : cpu.step.halted = true)
    (small : cpu.a.toNat ≤ 32767) (d : cpu.step.d = cpu.d) (ram : cpu.step.ram = cpu.ram) :
    cpu.step.Idles cpu.a.toNat := by
  obtain ⟨-, -, parked⟩ := isParked_of_halts here halts
  unfold isParked at parked
  rw [Bool.and_eq_true, beq_iff_eq, beq_iff_eq] at parked
  obtain ⟨before, load⟩ := parked
  have running := running_of_next? here
  have jumped := step_of_halts here halts
  have pc : cpu.step.pc = cpu.a.toNat := by
    rw [jumped]
  have loads : cpu.step.resume = cpu := by
    have there : { cpu.step with halted := false }.rom[cpu.step.pc]? = some cpu.a := by
      show cpu.step.rom[cpu.step.pc]? = some cpu.a
      rw [rom_step, pc]
      exact load
    unfold resume
    rw [step_address rfl there small]
    show Cpu.mk cpu.step.rom cpu.step.ram cpu.a cpu.step.d (cpu.step.pc + 1) false = cpu
    rw [rom_step, ram, d, pc, before, ← running]
  have jumps : cpu.resume = cpu.step := by
    unfold resume
    rw [← running]
  apply idles_of_periodic
  · show cpu.step.resume.resume = cpu.step
    rw [loads, jumps]
  · exact pc
  · rw [loads, before]
  · rw [loads, d]
  · rw [loads, ram]

/-- A processor that a jump has halted would idle for ever exactly if it does so for two rounds. It
does if the jump has changed neither the data register nor the memory and its target can be loaded;
for one, if the jumping instruction has no destination. -/
theorem idles_of_halts (here : cpu.next? = some word) (halts : cpu.step.halted = true) :
    (cpu.step.Idles cpu.a.toNat ↔ ∀ n ≤ 4, cpu.step.InLoop cpu.a.toNat n) ∧
    (cpu.a.toNat ≤ 32767 → cpu.step.d = cpu.d → cpu.step.ram = cpu.ram →
      cpu.step.Idles cpu.a.toNat) ∧
    ∀ comp jmp, cpu.a.toNat ≤ 32767 → Mnemonic.encode "" comp jmp = .ok word →
      cpu.step.Idles cpu.a.toNat := by
  have running := running_of_next? here
  have there : cpu.rom[cpu.pc]? = some word := rom_of_next? here
  have unchanged := idles_of_unchanged here halts
  refine ⟨⟨fun idles n _ => idles n, fun rounds => ?_⟩, unchanged, ?_⟩
  · obtain ⟨isCompute, -, parked⟩ := isParked_of_halts here halts
    have after : cpu.step.rom[cpu.a.toNat + 1]? = some word := by
      rw [rom_step, pc_of_isParked parked]
      exact there
    exact idles_of_two_rounds after isCompute rounds
  · intro comp jmp small encoded
    have executes := executes_step running there encoded
    apply unchanged small
    · exact executes.d
    · ext cell
      rw [executes.ram]
      rfl

/-- A processor in the loop that loads the address zero and jumps there. -/
def parkedLoop : Cpu := { load ⟨#[0, 0xEA87]⟩ with pc := 1 }

theorem idles_of_halts_parkedLoop :
    Mnemonic.encode "" "0" "JMP" = .ok 0xEA87 ∧ parkedLoop.step.halted = true ∧
      parkedLoop.step.Idles 0 := by
  have encoded : Mnemonic.encode "" "0" "JMP" = .ok 0xEA87 := by decide
  have here : parkedLoop.next? = some 0xEA87 := rfl
  have halts : parkedLoop.step.halted = true := by decide
  exact ⟨encoded, halts, (idles_of_halts here halts).2.2 "0" "JMP" (by decide) encoded⟩

/-- A processor in a loop that counts in the data register. -/
def countingLoop : Cpu := { load ⟨#[0, 0xE7D7]⟩ with pc := 1 }

/-- The halting jump does not see that the loop has an effect. -/
theorem countingLoop_not_idles :
    Mnemonic.encode "D" "D+1" "JMP" = .ok 0xE7D7 ∧ countingLoop.next? = some 0xE7D7 ∧
      countingLoop.step.halted = true ∧ ¬ countingLoop.step.Idles 0 := by
  refine ⟨by decide, rfl, by decide, ?_⟩
  intro idles
  have unchanged : (resume^[2] countingLoop.step).d = countingLoop.step.d := (idles 2).d
  exact absurd unchanged (by decide)

end HackToolchain.Cpu
