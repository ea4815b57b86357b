import HackToolchain.Proofs.Machine.Bounds

/-! Runs of the processor in a row. A run executes its whole budget, or it comes to a place without
an instruction while a step of the budget is left. So the budgets of runs in a row add up, and from
the budget that sees the processor halt on, all runs are the same. -/

namespace HackToolchain.Cpu

/-- The processor executes `count` instructions and then halts in the state `last`. A run sees this
if its budget has one step more, and nothing happens afterwards. -/
structure HaltsAfter (cpu : Cpu) (count : Nat) (last : Cpu) : Prop where
  executes : ∃ stop, Steps count cpu stop ∧ stop.next? = none ∧ last = { stop with halted := true }
  run_of_lt : ∀ budget, count < budget → cpu.run budget = (some count, last)
  run_of_le : ∀ budget ≤ count, (cpu.run budget).1 = none
  step : last.step = last
  run : ∀ budget, (last.run budget).2 = last

variable {cpu : Cpu} {count budget : Nat}

/-! ### A halted processor -/

theorem next?_of_halted (halted : cpu.halted = true) : cpu.next? = none := by
  rw [next?, halted]
  rfl

theorem step_of_halted (halted : cpu.halted = true) : cpu.step = cpu := by
  rw [step, next?_of_halted halted, ← halted]

theorem run_of_halted (halted : cpu.halted = true) (budget : Nat) : (cpu.run budget).2 = cpu := by
  cases budget with
  | zero => rfl
  | succ budget =>
    rw [run, runFrom, next?_of_halted halted]
    exact step_of_halted halted

/-! ### One run -/

/-- The processor goes on for as many steps as are asked for, unless it is stopped before. The step
that finds no instruction is none of them. -/
theorem steps_or_stops (cpu : Cpu) (budget : Nat) :
    (∃ last, Steps budget cpu last) ∨
      ∃ count < budget, ∃ stop, Steps count cpu stop ∧ stop.next? = none := by
  induction budget generalizing cpu with
  | zero => exact .inl ⟨cpu, .refl cpu⟩
  | succ budget ih =>
    cases here : cpu.next? with
    | none => exact .inr ⟨0, budget.succ_pos, cpu, .refl cpu, here⟩
    | some word =>
      rcases ih (cpu.execute word) with ⟨last, steps⟩ | ⟨count, left, stop, steps, stops⟩
      · exact .inl ⟨last, .next here steps⟩
      · exact .inr ⟨count + 1, Nat.succ_lt_succ left, stop, .next here steps, stops⟩

/-- A run that is not seen to halt has executed one instruction for each step of its budget. -/
theorem steps_of_run_eq_none (spent : (cpu.run budget).1 = none) :
    Steps budget cpu (cpu.run budget).2 := by
  rcases cpu.steps_or_stops budget with ⟨last, steps⟩ | ⟨count, left, stop, steps, stops⟩
  · rw [steps.run_eq]
    exact steps
  · rw [steps.run_halt_within stops left] at spent
    contradiction

theorem exists_stop_of_run_eq_some (seen : (cpu.run budget).1 = some count) :
    count < budget ∧ ∃ stop, Steps count cpu stop ∧ stop.next? = none := by
  rcases cpu.steps_or_stops budget with ⟨last, steps⟩ | ⟨count', left, stop, steps, stops⟩
  · rw [steps.run_eq] at seen
    contradiction
  · rw [steps.run_halt_within stops left] at seen
    cases seen
    exact ⟨left, stop, steps, stops⟩

/-! ### Runs in a row -/

/-- A run with the sum of two budgets: the second part goes on where the first has spent its budget,
and counts on from there. -/
theorem run_add (cpu : Cpu) (first second : Nat) :
    cpu.run (first + second) =
      ((cpu.run first).1.or (((cpu.run first).2.run second).1.map (first + ·)),
        ((cpu.run first).2.run second).2) := by
  rcases cpu.steps_or_stops first with ⟨mid, before⟩ | ⟨count, left, stop, before, stops⟩
  · rw [before.run_eq]
    rcases mid.steps_or_stops second with ⟨last, later⟩ | ⟨count, left, stop, later, stops⟩
    · rw [(before.trans later).run_eq, later.run_eq]
      rfl
    · have within : first + count < first + second := Nat.add_lt_add_left left first
      rw [(before.trans later).run_halt_within stops within, later.run_halt_within stops left]
      rfl
  · rw [before.run_halt_within stops (Nat.lt_add_right second left),
      before.run_halt_within stops left, run_of_halted rfl]
    rfl

/-- A run that is seen to halt tells all runs from the same start. -/
theorem haltsAfter_of_run_eq_some (seen : (cpu.run budget).1 = some count) :
    cpu.HaltsAfter count (cpu.run budget).2 := by
  obtain ⟨left, stop, steps, stops⟩ := exists_stop_of_run_eq_some seen
  have last : (cpu.run budget).2 = { stop with halted := true } := by
    rw [steps.run_halt_within stops left]
  rw [last]
  constructor
  · exact ⟨stop, steps, stops, rfl⟩
  · intro larger enough
    exact steps.run_halt_within stops enough
  · -- A smaller budget that sees the processor halt would see it after fewer instructions, and so
    -- would the budget at hand, which is larger.
    intro smaller few
    rw [Option.eq_none_iff_forall_ne_some]
    intro earlier seenEarlier
    obtain ⟨less, stop', steps', stops'⟩ := exists_stop_of_run_eq_some seenEarlier
    have within : earlier < budget := by omega
    rw [steps'.run_halt_within stops' within] at seen
    have same : earlier = count := Option.some.inj seen
    omega
  · exact step_of_halted rfl
  · exact run_of_halted rfl

/-- With a program that fits in the ROM the program counter is a word after every run. -/
theorem pc_run_lt (fits : cpu.rom.size ≤ Layout.capacity) (word : cpu.pc < 2 ^ 16) (budget : Nat) :
    (cpu.run budget).2.pc < 2 ^ 16 := by
  have carries : cpu.Carries ⟨cpu.rom⟩ := ⟨rfl, word⟩
  exact (carries.serve fits (.run budget)).pc

/-- Two runs in a row leave the processor as one run with both budgets does, which is seen to halt
if and only if one of them is, after as many instructions as they execute together. A run that is
not seen to halt executes its whole budget; the other runs from the same start agree with one that
is. On the way the program counter stays a word. -/
theorem runs_compose (cpu : Cpu) (first second : Nat) :
    ((cpu.run first).2.run second).2 = (cpu.run (first + second)).2 ∧
    (∀ count, (cpu.run (first + second)).1 = some count ↔
      (cpu.run first).1 = some count ∨
        (cpu.run first).1 = none ∧
          ∃ more, ((cpu.run first).2.run second).1 = some more ∧ count = first + more) ∧
    ((cpu.run first).1 = none → Steps first cpu (cpu.run first).2) ∧
    (∀ count, (cpu.run first).1 = some count →
      count < first ∧ cpu.HaltsAfter count (cpu.run first).2) ∧
    (cpu.rom.size ≤ Layout.capacity → cpu.pc < 2 ^ 16 →
      ∀ budget, (cpu.run budget).2.pc < 2 ^ 16) := by
  have whole := cpu.run_add first second
  refine ⟨?_, ?_, steps_of_run_eq_none, ?_, pc_run_lt⟩
  · rw [whole]
  · intro count
    rw [whole]
    simp only [Option.or_eq_some_iff, Option.map_eq_some_iff, eq_comm (a := count)]
  · intro count seen
    exact ⟨(exists_stop_of_run_eq_some seen).1, haltsAfter_of_run_eq_some seen⟩

/-- A processor before the loop that loads the address zero and jumps there. -/
def enteredLoop : Cpu := load ⟨#[0, 0xEA87]⟩

/-- The jump sets the halted flag in the second step, and only a third one sees it. -/
theorem runs_compose_enteredLoop :
    enteredLoop.rom.size ≤ Layout.capacity ∧ (enteredLoop.run 2).1 = none ∧
      (enteredLoop.run 2).2.halted = true ∧ ((enteredLoop.run 2).2.run 5).1 = some 0 ∧
      (enteredLoop.run 7).1 = some 2 ∧ enteredLoop.HaltsAfter 2 (enteredLoop.run 7).2 ∧
      (enteredLoop.run 7).2.pc < 2 ^ 16 := by
  have fits : enteredLoop.rom.size ≤ Layout.capacity := by decide
  have spent : (enteredLoop.run 2).1 = none := by decide
  have flag : (enteredLoop.run 2).2.halted = true := by decide
  have later : ((enteredLoop.run 2).2.run 5).1 = some 0 := by decide
  obtain ⟨-, halts, -, -, word⟩ := runs_compose enteredLoop 2 5
  have seen : (enteredLoop.run 7).1 = some 2 := (halts 2).mpr (.inr ⟨spent, 0, later, rfl⟩)
  obtain ⟨-, -, -, alike, -⟩ := runs_compose enteredLoop 7 0
  exact ⟨fits, spent, flag, later, seen, (alike 2 seen).2, word fits (by decide) 7⟩

/-- Behind the last instruction the flag is set by the step that finds none. -/
example : ((load ⟨#[7]⟩).run 1).1 = none ∧ ((load ⟨#[7]⟩).run 1).2.halted = false ∧
    ((load ⟨#[7]⟩).run 2).1 = some 1 ∧ ((load ⟨#[7]⟩).run 2).2.halted = true := by
  decide

end HackToolchain.Cpu
