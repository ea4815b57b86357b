import HackToolchain.Proofs.Assembly.Resolution
import HackToolchain.Proofs.Except
import HackToolchain.Proofs.Machine.Instruction

/-! Runs of the processor over instructions that are loaded in the ROM. Instructions that do not
jump are executed one after the other, and a jump goes to the address of its symbol. -/

namespace HackToolchain

/-! ### Counted steps -/

/-- Some number of steps, each of an instruction: the processor halts at the end if at all. -/
inductive Cpu.Steps : Nat → Cpu → Cpu → Prop
  | refl (cpu : Cpu) : Steps 0 cpu cpu
  | next {n : Nat} {cpu last : Cpu} {word : Word} (here : cpu.next? = some word)
      (rest : Steps n (cpu.execute word) last) : Steps (n + 1) cpu last

namespace Cpu

variable {first mid last : Cpu} {m n : Nat}

theorem Steps.trans (h : Steps m first mid) (h' : Steps n mid last) :
    Steps (m + n) first last := by
  induction h with
  | refl => rwa [Nat.zero_add]
  | @next k _ _ _ here _ ih =>
    rw [Nat.add_right_comm]
    exact .next here (ih h')

theorem step_eq_execute {word : Word} (here : first.next? = some word) :
    first.step = first.execute word := by
  rw [step, here]

theorem runFrom_of_steps (h : Steps n first last) (done : Nat) :
    first.runFrom done n = (none, last) := by
  induction h generalizing done with
  | refl => rfl
  | next here _ ih =>
    rw [runFrom, here, Option.isSome_some, if_pos rfl, step_eq_execute here]
    exact ih (done + 1)

/-- Counted steps are a run that spends its whole budget. -/
theorem Steps.run_eq (h : Steps n first last) : first.run n = (none, last) :=
  runFrom_of_steps h 0

theorem runFrom_of_steps_of_halt (h : Steps n first last) (stops : last.next? = none)
    (done more : Nat) :
    first.runFrom done (n + more + 1) = (some (done + n), { last with halted := true }) := by
  induction h generalizing done with
  | refl => simp [runFrom, step, stops]
  | @next n _ _ _ here _ ih =>
    rw [Nat.add_right_comm n 1 more, runFrom, here, Option.isSome_some, if_pos rfl,
      step_eq_execute here, ih stops (done + 1), Nat.add_assoc, Nat.add_comm 1]

/-- Steps to a place without an instruction are a run that halts, within any budget that is left
with a step. -/
theorem Steps.run_halt_within (h : Steps n first last) (stops : last.next? = none) {budget : Nat}
    (enough : n < budget) : first.run budget = (some n, { last with halted := true }) := by
  obtain ⟨more, rfl⟩ := Nat.exists_eq_add_of_lt enough
  rw [run, runFrom_of_steps_of_halt h stops, Nat.zero_add]

theorem Steps.run_halt (h : Steps n first last) (stops : last.next? = none) :
    first.run (n + 1) = (some n, { last with halted := true }) :=
  h.run_halt_within stops (Nat.lt_succ_self n)

end Cpu

/-! ### Instructions in the ROM -/

/-- The words of some instructions lie in the ROM from an address on. -/
def Loaded (resolve : String → Nat) (rom : Array Word) : Nat → List Instruction → Prop
  | _, [] => True
  | pc, i :: rest => (∃ word, i.encode resolve = .ok word ∧ rom[pc]? = some word) ∧
      Loaded resolve rom (pc + 1) rest

section

variable {resolve : String → Nat} {rom : Array Word} {pc : Nat}

theorem loaded_append {front back : List Instruction} :
    Loaded resolve rom pc (front ++ back) ↔
      Loaded resolve rom pc front ∧ Loaded resolve rom (pc + front.length) back := by
  induction front generalizing pc with
  | nil => simp [Loaded]
  | cons i front ih =>
    rw [List.cons_append, Loaded, Loaded, ih, List.length_cons, and_assoc, Nat.add_assoc,
      Nat.add_comm 1]

theorem loaded_of_words {code : List Instruction} {words : List Word}
    (h : code.mapM (Instruction.encode resolve) = .ok words)
    (there : ∀ k word, words[k]? = some word → rom[pc + k]? = some word) :
    Loaded resolve rom pc code := by
  induction code generalizing pc words with
  | nil => trivial
  | cons i code ih =>
    obtain ⟨word, back, here, later, rfl⟩ := mapM_cons_eq_ok.mp h
    refine ⟨⟨word, here, there 0 word rfl⟩, ih later fun k other found => ?_⟩
    rw [Nat.add_assoc, Nat.add_comm 1]
    exact there (k + 1) other found

end

/-- Lines that are placed, with the words of their instructions in the ROM. -/
structure Lines.Assembled (lines : List Line) (rom : Array Word) : Prop where
  placeable : Placeable lines
  words : (code lines).mapM (Instruction.encode (address lines)) = .ok rom.toList

namespace Lines

variable {lines front body back : List Line} {rom : Array Word}

theorem Assembled.loaded (h : Assembled lines rom) (split : lines = front ++ body ++ back) :
    Loaded (address lines) rom (size front) (code body) := by
  have whole : Loaded (address lines) rom 0 (code lines) :=
    loaded_of_words h.words fun k word found => by
      rw [Nat.zero_add, ← Array.getElem?_toList, found]
  have parts : code lines = code front ++ (code body ++ code back) := by
    rw [split, code_append, code_append, List.append_assoc]
  rw [parts, loaded_append, loaded_append, Nat.zero_add] at whole
  exact whole.2.1

/-- The instructions of assembled lines all have words. -/
theorem Assembled.encodes (h : Assembled lines rom) (inside : body ⊆ lines) :
    ∀ i ∈ code body, ∃ word, i.encode (address lines) = .ok word := by
  intro i among
  obtain ⟨line, own, same⟩ := List.mem_filterMap.mp among
  exact exists_mapM_eq_ok.mp ⟨_, h.words⟩ i (List.mem_filterMap.mpr ⟨line, inside own, same⟩)

theorem Assembled.size_rom (h : Assembled lines rom) : rom.size = size lines := by
  rw [size, (mapM_eq_ok_iff.mp h.words).length_eq, Array.length_toList]

/-- The address of a label inside some lines. -/
theorem Assembled.address_label {name : String} {before after : List Line}
    (h : Assembled lines rom) (split : lines = front ++ body ++ back)
    (inside : body = before ++ .label name :: after) :
    address lines name = size front + size before := by
  have whole : lines = (front ++ before) ++ .label name :: (after ++ back) := by
    rw [split, inside]
    simp
  have placeable := h.placeable
  rw [whole] at placeable ⊢
  rw [placeable.address_label, size_append]

end Lines

/-! ### Effects in a row -/

/-- The effect of an instruction that does not jump. -/
def Instruction.act (resolve : String → Nat) (s : Store) : Instruction → Store
  | address (.literal value) => { s with a := BitVec.ofNat 16 value }
  | address (.symbol name) => { s with a := BitVec.ofNat 16 (resolve name) }
  | compute dest comp _ => s.put dest (s.value comp)

def Store.after (s : Store) (resolve : String → Nat) (code : List Instruction) : Store :=
  code.foldl (Instruction.act resolve) s

def Instruction.Straight : Instruction → Prop
  | address _ => True
  | compute _ _ jmp => jmp = ""

instance : DecidablePred Instruction.Straight
  | .address _ => .isTrue trivial
  | .compute _ _ jmp => inferInstanceAs (Decidable (jmp = ""))

section

variable {resolve : String → Nat} {rom : Array Word} {pc : Nat} {s : Store}

theorem next?_of_loaded {i : Instruction} {rest : List Instruction}
    (h : Loaded resolve rom pc (i :: rest)) :
    ∃ word, i.encode resolve = .ok word ∧ (s.cpu rom pc).next? = some word := by
  obtain ⟨⟨word, encoded, found⟩, -⟩ := h
  exact ⟨word, encoded, found⟩

theorem execute_straight {i : Instruction} {word : Word} (straight : i.Straight)
    (encoded : i.encode resolve = .ok word) :
    (s.cpu rom pc).execute word = (i.act resolve s).cpu rom (pc + 1) := by
  match i with
  | .address (.literal value) => exact Store.execute_address encoded
  | .address (.symbol name) => exact Store.execute_address encoded
  | .compute dest comp jmp =>
    cases straight
    rw [Store.execute_compute encoded]
    exact if_neg Bool.false_ne_true

/-- Instructions that do not jump are executed one after the other. -/
theorem steps_straight {code : List Instruction} (loaded : Loaded resolve rom pc code)
    (straight : ∀ i ∈ code, i.Straight) :
    Cpu.Steps code.length (s.cpu rom pc) ((s.after resolve code).cpu rom (pc + code.length)) := by
  induction code generalizing pc s with
  | nil => exact .refl _
  | cons i rest ih =>
    obtain ⟨here, later⟩ := List.forall_mem_cons.mp straight
    obtain ⟨word, encoded, next⟩ := next?_of_loaded (s := s) loaded
    have steps := ih (s := i.act resolve s) loaded.2 later
    rw [← execute_straight here encoded, Nat.add_assoc, Nat.add_comm 1] at steps
    exact .next next steps

/-! ### Jumps -/

/-- A jump goes to the address register. It parks the processor at the load of this address. -/
theorem steps_compute {dest comp jmp : String} {rest : List Instruction}
    (loaded : Loaded resolve rom pc (.compute dest comp jmp :: rest)) :
    Cpu.Steps 1 (s.cpu rom pc)
      (if Mnemonic.condition jmp (s.value comp) then
        (s.put dest (s.value comp)).jumped rom s.a.toNat ((s.cpu rom pc).isParked s.a)
      else (s.put dest (s.value comp)).cpu rom (pc + 1)) := by
  obtain ⟨word, encoded, next⟩ := next?_of_loaded (s := s) loaded
  rw [← Store.execute_compute encoded]
  exact .next next (.refl _)

theorem steps_symbol {name : String} {rest : List Instruction}
    (loaded : Loaded resolve rom pc (.address (.symbol name) :: rest)) :
    Cpu.Steps 1 (s.cpu rom pc)
      ({ s with a := BitVec.ofNat 16 (resolve name) }.cpu rom (pc + 1)) := by
  obtain ⟨word, encoded, next⟩ := next?_of_loaded (s := s) loaded
  rw [← Store.execute_address encoded]
  exact .next next (.refl _)

/-- A jump to a symbol. It parks the processor if the symbol is where the jump starts. -/
theorem steps_jump {name comp jmp : String} {rest : List Instruction}
    (loaded : Loaded resolve rom pc (.address (.symbol name) :: .compute "" comp jmp :: rest))
    (s' : Store) (start : s' = { s with a := BitVec.ofNat 16 (resolve name) }) :
    Cpu.Steps 2 (s.cpu rom pc)
      (if Mnemonic.condition jmp (s'.value comp) then
        s'.jumped rom (resolve name) (resolve name = pc)
      else s'.cpu rom (pc + 2)) := by
  obtain ⟨word, encoded, found⟩ := loaded.1
  have target : (BitVec.ofNat 16 (resolve name)).toNat = resolve name := by
    obtain ⟨-, rfl⟩ := encodeAddress_eq_ok.mp encoded
    exact Store.toNat_of_encodeAddress encoded
  have parked : (s'.cpu rom (pc + 1)).isParked s'.a = decide (resolve name = pc) := by
    obtain ⟨-, rfl⟩ := encodeAddress_eq_ok.mp encoded
    simp only [Cpu.isParked, start, target]
    by_cases same : resolve name = pc
    · simp [Store.cpu, same] at found ⊢
      exact found
    · simp [Store.cpu, same]
  have jump := steps_compute (s := s') loaded.2
  rw [parked] at jump
  have steps := (steps_symbol (s := s) loaded).trans (start ▸ jump)
  simpa [start, target, Store.put] using steps

theorem steps_goto {name : String} {rest : List Instruction}
    (loaded : Loaded resolve rom pc (.address (.symbol name) :: .compute "" "0" "JMP" :: rest)) :
    ∃ t : Store, t.ram = s.ram ∧
      Cpu.Steps 2 (s.cpu rom pc) (t.jumped rom (resolve name) (resolve name = pc)) :=
  ⟨{ s with a := BitVec.ofNat 16 (resolve name) }, rfl, steps_jump loaded _ rfl⟩

/-- A jump on a condition of the data register. -/
theorem steps_branch {name condition : String} {rest : List Instruction}
    (loaded : Loaded resolve rom pc
      (.address (.symbol name) :: .compute "" "D" condition :: rest)) :
    ∃ t : Store, t.ram = s.ram ∧ Cpu.Steps 2 (s.cpu rom pc)
      (if Mnemonic.condition condition s.d then
        t.jumped rom (resolve name) (resolve name = pc)
      else t.cpu rom (pc + 2)) :=
  ⟨{ s with a := BitVec.ofNat 16 (resolve name) }, rfl, steps_jump loaded _ rfl⟩

end

end HackToolchain
