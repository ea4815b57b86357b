import HackToolchain.Proofs.Lowering.Realization

/-! Runs of the processor through the code of calls and returns, which end in a jump. -/

namespace HackToolchain

open StackMachine

variable {lines front back : List Line} {rom : Array Word} {pc : Nat} {s : Store}
  {fragment : Lowering.Fragment}

/-- While instructions do not jump, the processor is at the next one after every step. -/
theorem steps_into {code : List Instruction} (loaded : Loaded (Lines.address lines) rom pc code)
    (straight : ∀ i ∈ code, i.Straight) {k : Nat} (inside : k ≤ code.length) :
    ∃ t : Store, Cpu.Steps k (s.cpu rom pc) (t.cpu rom (pc + k)) := by
  rw [← List.take_append_drop k code, loaded_append] at loaded
  have steps := steps_straight (s := s) loaded.1 fun i hi => straight i (List.mem_of_mem_take hi)
  rw [List.length_take_of_le inside] at steps
  exact ⟨_, steps⟩

namespace Lowering

/-! ### Frames -/

theorem performs_pushZeros (count : Nat) :
    Performs lines (List.replicate count pushZero).flatten (pushZeros .inCells count) := by
  induction count with
  | zero => exact ⟨by simp, fun s => rfl⟩
  | succ count ih =>
    have zero : Performs lines pushZero (push .inCells 0) :=
      ((realizes_literal 0 "A" (fun _ a => a) fun _ _ _ => rfl).append
        realizes_pushData).performs fun d => by simp
    rw [List.replicate_succ, List.flatten_cons]
    exact zero.append ih

theorem performs_setup (name : String) (args number : Nat) :
    Performs lines (symbol (returnLabel name number) :: setup args)
      (enter .inCells args (BitVec.ofNat 16 (Lines.address lines (returnLabel name number)))) := by
  have saved : Realizes lines (Platform.savedRegisters.flatMap pushNamed) fun _ => do
      push .inCells (← load .inCells lcl)
      push .inCells (← load .inCells arg)
      push .inCells (← load .inCells this)
      let value ← load .inCells that
      push .inCells value
      return value := by
    refine ((realizes_pushNamed "LCL").append ((realizes_pushNamed "ARG").append
      ((realizes_pushNamed "THIS").append (realizes_pushNamed "THAT")))).congr fun d => ?_
    simp
  have argument : Realizes lines
      [symbol "SP", assign "D" "M", literal (args + Platform.frameSize), assign "D" "D-A"]
      fun _ => do
        return (← load .inCells sp) - BitVec.ofNat 16 (args + Platform.frameSize) := by
    refine ((realizes_fetch "SP").append (realizes_literal _ "D-A" (fun d a => d - a)
      fun _ _ _ => rfl)).congr fun d => ?_
    simp
  refine (((((((realizes_addressOf (returnLabel name number)).append realizes_pushData).append
    saved).append argument).append (realizes_store "ARG")).append (realizes_fetch "SP")).append
    (realizes_store "LCL")).performs fun d => ?_
  simp [enter]

/-- The part of a return before the jump. -/
def teardown : Fragment :=
  [symbol "LCL", assign "D" "M"] ++ store Platform.addressScratch ++
    [literal Platform.frameSize, assign "A" "D-A", assign "D" "M"] ++
    store Platform.returnScratch ++
    popData ++ [symbol "ARG", assign "A" "M", assign "M" "D"] ++
    [symbol "ARG", assign "D" "M+1"] ++ store "SP" ++
    Platform.savedRegisters.reverse.flatMap Lowering.restore

theorem ret_eq : ret =
    teardown ++ [symbol Platform.returnScratch, assign "A" "M", jump "0" "JMP"] := rfl

theorem realizes_frameCell :
    Realizes lines [literal Platform.frameSize, assign "A" "D-A", assign "D" "M"] fun d =>
      load .inCells (cellOf (d - BitVec.ofNat 16 Platform.frameSize)) where
  straight := by simp
  effect s := by
    simp [Store.put, Store.value]

theorem performs_restore (register : String) (kept : Word) :
    Performs lines (restore register) (do
      let _ ← StackMachine.restore .inCells (Lines.cell lines register) kept
      return ()) where
  straight := by simp [restore, store]
  effect s := by
    have cell : BitVec.ofNat 15 (Lines.address lines Platform.addressScratch) = addressScratch :=
      cell_addressScratch
    simp [restore, store, StackMachine.restore, regain, keep, Store.put, Store.value, cellOf_ofNat,
      cell, Lines.cell, bind_apply]

theorem performs_teardown :
    Performs lines teardown (do let _ ← takeDown .inCells; return ()) := by
  have result : Realizes lines
      ([symbol "LCL", assign "D" "M"] ++ store Platform.addressScratch ++
        [literal Platform.frameSize, assign "A" "D-A", assign "D" "M"] ++
        store Platform.returnScratch ++
        popData ++ [symbol "ARG", assign "A" "M", assign "M" "D"] ++
        [symbol "ARG", assign "D" "M+1"] ++ store "SP") _ :=
    (((((((realizes_fetch "LCL").append (realizes_store Platform.addressScratch)).append
      realizes_frameCell).append (realizes_store Platform.returnScratch)).append
      realizes_popData).append (realizes_storeThrough "ARG")).append
      (realizes_symbol "ARG" "M+1" (fun _ m => m + 1) fun _ _ _ => rfl)).append
      (realizes_store "SP")
  have restores : Performs lines
      (restore "THAT" ++ restore "THIS" ++ restore "ARG" ++ restore "LCL") _ :=
    (((performs_restore "THAT" 0).append (performs_restore "THIS" 0)).append
      (performs_restore "ARG" 0)).append (performs_restore "LCL" 0)
  refine ((result.performs fun d => rfl).append restores).congr ?_
  simp only [takeDown, StackMachine.restore, keep, regain, bind_assoc, pure_bind, cell_lcl,
    cell_arg, cell_this, cell_that, cell_sp, cell_addressScratch, cell_returnScratch]

/-! ### Calls -/

theorem address_returnLabel {name : String} {args number : Nat}
    (assembled : Lines.Assembled lines rom)
    (split : lines = front ++ call name args number ++ back) :
    Lines.address lines (returnLabel name number) = Lines.size front + 47 :=
  assembled.address_label split
    (show _ = (symbol (returnLabel name number) :: setup args ++
      [symbol name, jump "0" "JMP"]) ++ [_] from rfl)

/-- A call sets up the frame and jumps to the function. -/
theorem steps_call {name : String} {args number : Nat} {ram : Ram}
    (assembled : Lines.Assembled lines rom)
    (split : lines = front ++ call name args number ++ back)
    (run : enter .inCells args (BitVec.ofNat 16 (Lines.size front + 47)) s.ram = some ((), ram)) :
    ∃ t : Store, t.ram = ram ∧ Cpu.Steps 47 (s.cpu rom (Lines.size front))
      (t.jumped rom (Lines.address lines name)
        (Lines.address lines name = Lines.size front + 45)) := by
  have loaded := assembled.loaded split
  rw [call_eq, Lines.code_append, loaded_append] at loaded
  rw [← address_returnLabel assembled split] at run
  obtain ⟨t, rfl, steps⟩ := (performs_setup name args number).steps loaded.1 run
  obtain ⟨t', same, jump⟩ := steps_goto (s := t) loaded.2
  exact ⟨t', same, steps.trans jump⟩

/-! ### Returns -/

/-- A jump parks the processor only at the word right before it. -/
theorem isParked_eq {target word : Word} (before : rom[pc]? = some word) :
    (s.cpu rom (pc + 1)).isParked target = decide (target.toNat = pc ∧ target = word) := by
  rw [Bool.eq_iff_iff, decide_eq_true_eq, Cpu.isParked, Bool.and_eq_true, beq_iff_eq, beq_iff_eq]
  show target.toNat + 1 = pc + 1 ∧ rom[target.toNat]? = some target ↔ _
  constructor
  · rintro ⟨same, here⟩
    have there : target.toNat = pc := by omega
    rw [there, before, Option.some.injEq] at here
    exact ⟨there, here.symm⟩
  · rintro ⟨same, rfl⟩
    rw [same]
    exact ⟨rfl, before⟩

/-- A return takes the frame down and jumps to the return address. It parks the processor only if
this address is the place right before the jump and the word there. -/
theorem steps_ret {target : Word} {ram : Ram} (assembled : Lines.Assembled lines rom)
    (split : lines = front ++ ret ++ back) (run : leave .inCells s.ram = some (target, ram)) :
    ∃ t : Store, t.ram = ram ∧ Cpu.Steps 43 (s.cpu rom (Lines.size front))
      (t.jumped rom target.toNat
        (target.toNat = Lines.size front + 41 ∧ target = 0xFC20#16)) := by
  have loaded := assembled.loaded split
  rw [ret_eq, Lines.code_append, loaded_append] at loaded
  obtain ⟨down, last⟩ := loaded
  obtain ⟨kept, after, taken, regained⟩ := bind_eq_some.mp run
  cases regained
  have performed : (do let _ ← takeDown .inCells; return () : Memory Unit) s.ram = some ((), ram) :=
    bind_eq_some.mpr ⟨kept, ram, taken, rfl⟩
  obtain ⟨t, rfl, steps⟩ := performs_teardown.steps down performed
  have address : Loaded (Lines.address lines) rom (Lines.size front + 40)
      (Lines.code [symbol Platform.returnScratch, assign "A" "M"]) := ⟨last.1, last.2.1, trivial⟩
  obtain ⟨u, target, same, fetch⟩ : ∃ u : Store, u.a = t.ram.read returnScratch ∧ u.ram = t.ram ∧
      Cpu.Steps 2 (t.cpu rom (Lines.size front + 40)) (u.cpu rom (Lines.size front + 42)) := by
    have cell : BitVec.ofNat 15 (Lines.address lines Platform.returnScratch) = returnScratch :=
      cell_returnScratch
    refine ⟨_, ?_, ?_, steps_straight address (by decide)⟩
    · simp [Store.put, Store.value, cellOf_ofNat, cell]
    · simp [Store.put]
  have before : rom[Lines.size front + 41]? = some 0xFC20#16 := by
    obtain ⟨-, ⟨word, encoded, found⟩, -⟩ := last
    cases encoded
    exact found
  have jump := steps_compute (s := u) last.2.2
  rw [if_pos (show Mnemonic.condition "JMP" _ = true from rfl)] at jump
  refine ⟨u.put "" (u.value "0"), same, ?_⟩
  rw [← target, ← isParked_eq before]
  exact (steps.trans fetch).trans jump

end Lowering

end HackToolchain
