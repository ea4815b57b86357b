import HackToolchain.Proofs.Lowering.Spelling
import HackToolchain.Proofs.Machine.Execution
import HackToolchain.Proofs.StackMachine.Memory

/-! What the fragments of a translated program do, as computations of the stack machine that take
and leave a word in the data register. -/

namespace HackToolchain

open StackMachine

theorem straight_append {front back : Lowering.Fragment} :
    (∀ i ∈ Lines.code (front ++ back), i.Straight) ↔
      (∀ i ∈ Lines.code front, i.Straight) ∧ ∀ i ∈ Lines.code back, i.Straight := by
  rw [Lines.code_append]
  exact List.forall_mem_append

theorem after_append {resolve : String → Nat} {front back : Lowering.Fragment} {s : Store} :
    s.after resolve (Lines.code (front ++ back)) =
      (s.after resolve (Lines.code front)).after resolve (Lines.code back) := by
  rw [Lines.code_append, Store.after, List.foldl_append]
  rfl

/-- A fragment without jumps that carries out a computation, from the word in the data register to
the word that it leaves there. -/
structure Realizes (lines : List Line) (fragment : Lowering.Fragment)
    (m : Word → Memory Word) : Prop where
  straight : ∀ i ∈ Lines.code fragment, i.Straight
  effect : ∀ s : Store, m s.d s.ram =
    some ((s.after (Lines.address lines) (Lines.code fragment)).d,
      (s.after (Lines.address lines) (Lines.code fragment)).ram)

namespace Realizes

variable {lines : List Line} {front back fragment : Lowering.Fragment} {m m' : Word → Memory Word}

theorem append (h : Realizes lines front m) (h' : Realizes lines back m') :
    Realizes lines (front ++ back) fun d => m d >>= m' where
  straight := straight_append.mpr ⟨h.straight, h'.straight⟩
  effect s := by
    rw [after_append]
    show (m s.d s.ram).bind (fun (d, ram) => m' d ram) = _
    rw [h.effect s]
    exact h'.effect (s.after (Lines.address lines) (Lines.code front))

theorem congr (h : Realizes lines fragment m) (same : ∀ d, m d = m' d) :
    Realizes lines fragment m' := by
  obtain rfl : m = m' := funext same
  exact h

end Realizes

/-- A fragment without jumps that carries out a computation, whatever word it finds and leaves in
the data register. -/
structure Performs (lines : List Line) (fragment : Lowering.Fragment) (m : Memory Unit) : Prop where
  straight : ∀ i ∈ Lines.code fragment, i.Straight
  effect : ∀ s : Store, m s.ram =
    some ((), (s.after (Lines.address lines) (Lines.code fragment)).ram)

theorem Realizes.performs {lines : List Line} {fragment : Lowering.Fragment}
    {m : Word → Memory Word} {m' : Memory Unit} (h : Realizes lines fragment m)
    (same : ∀ d, (do let _ ← m d; return ()) = m') : Performs lines fragment m' where
  straight := h.straight
  effect s := by
    rw [← same s.d]
    show ((m s.d s.ram).bind fun (_, ram) => some ((), ram)) = _
    rw [h.effect s]
    rfl

theorem Performs.append {lines : List Line} {front back : Lowering.Fragment}
    {m m' : Memory Unit} (h : Performs lines front m) (h' : Performs lines back m') :
    Performs lines (front ++ back) (do m; m') where
  straight := straight_append.mpr ⟨h.straight, h'.straight⟩
  effect s := by
    rw [after_append]
    show ((m s.ram).bind fun (_, ram) => m' ram) = _
    rw [h.effect s]
    exact h'.effect (s.after (Lines.address lines) (Lines.code front))

theorem Performs.congr {lines : List Line} {fragment : Lowering.Fragment} {m m' : Memory Unit}
    (h : Performs lines fragment m) (same : m = m') : Performs lines fragment m' := same ▸ h

theorem performs_nil {lines : List Line} : Performs lines [] (pure ()) :=
  ⟨by simp, fun _ => rfl⟩

/-- A label does nothing. -/
theorem Performs.label {lines : List Line} {fragment : Lowering.Fragment} {m : Memory Unit}
    (name : String) (h : Performs lines fragment m) : Performs lines (.label name :: fragment) m :=
  ⟨h.straight, h.effect⟩

/-! ### Runs -/

section

variable {lines : List Line} {rom : Array Word} {pc : Nat} {s : Store}
  {fragment : Lowering.Fragment}

/-- Running a fragment carries out its computation. -/
theorem Performs.steps {m : Memory Unit} {ram : Ram} (h : Performs lines fragment m)
    (loaded : Loaded (Lines.address lines) rom pc (Lines.code fragment))
    (run : m s.ram = some ((), ram)) :
    ∃ t : Store, t.ram = ram ∧
      Cpu.Steps (Lines.size fragment) (s.cpu rom pc) (t.cpu rom (pc + Lines.size fragment)) := by
  refine ⟨_, ?_, steps_straight loaded h.straight⟩
  rw [h.effect s] at run
  cases run
  rfl

theorem Realizes.steps {m : Word → Memory Word} {d : Word} {ram : Ram}
    (h : Realizes lines fragment m)
    (loaded : Loaded (Lines.address lines) rom pc (Lines.code fragment))
    (run : m s.d s.ram = some (d, ram)) :
    ∃ t : Store, t.d = d ∧ t.ram = ram ∧
      Cpu.Steps (Lines.size fragment) (s.cpu rom pc) (t.cpu rom (pc + Lines.size fragment)) := by
  refine ⟨_, ?_, ?_, steps_straight loaded h.straight⟩
  · rw [h.effect s] at run
    cases run
    rfl
  · rw [h.effect s] at run
    cases run
    rfl

end

/-! ### Symbols and their cells -/

/-- The cell of a symbol. -/
def Lines.cell (lines : List Line) (name : String) : Cell := BitVec.ofNat 15 (address lines name)

section

variable {lines : List Line}

theorem Lines.cell_of_predefined {name : String} {number : Nat}
    (h : predefinedSymbols.lookup name = some number) :
    cell lines name = BitVec.ofNat 15 number := by
  rw [cell, address_of_predefined h]

@[simp] theorem cell_sp : Lines.cell lines "SP" = sp := Lines.cell_of_predefined rfl

@[simp] theorem cell_lcl : Lines.cell lines "LCL" = lcl := Lines.cell_of_predefined rfl

@[simp] theorem cell_arg : Lines.cell lines "ARG" = arg := Lines.cell_of_predefined rfl

@[simp] theorem cell_this : Lines.cell lines "THIS" = this := Lines.cell_of_predefined rfl

@[simp] theorem cell_that : Lines.cell lines "THAT" = that := Lines.cell_of_predefined rfl

@[simp] theorem cell_addressScratch :
    Lines.cell lines Platform.addressScratch = addressScratch := Lines.cell_of_predefined rfl

@[simp] theorem cell_returnScratch :
    Lines.cell lines Platform.returnScratch = returnScratch := Lines.cell_of_predefined rfl

end

/-! ### Single lines -/

section

variable {resolve : String → Nat} {rest : Lowering.Fragment} {s : Store}

@[simp] theorem after_nil : s.after resolve [] = s := rfl

@[simp] theorem after_symbol (name : String) :
    s.after resolve (Lines.code (Lowering.symbol name :: rest)) =
      { s with a := BitVec.ofNat 16 (resolve name) }.after resolve (Lines.code rest) := rfl

@[simp] theorem after_literal (value : Nat) :
    s.after resolve (Lines.code (Lowering.literal value :: rest)) =
      { s with a := BitVec.ofNat 16 value }.after resolve (Lines.code rest) := rfl

@[simp] theorem after_assign (dest comp : String) :
    s.after resolve (Lines.code (Lowering.assign dest comp :: rest)) =
      (s.put dest (s.value comp)).after resolve (Lines.code rest) := rfl

@[simp] theorem straight_symbol (name : String) :
    (∀ i ∈ Lines.code (Lowering.symbol name :: rest), i.Straight) ↔
      ∀ i ∈ Lines.code rest, i.Straight := by
  simp [Lowering.symbol, Instruction.Straight]

@[simp] theorem straight_literal (value : Nat) :
    (∀ i ∈ Lines.code (Lowering.literal value :: rest), i.Straight) ↔
      ∀ i ∈ Lines.code rest, i.Straight := by
  simp [Lowering.literal, Instruction.Straight]

@[simp] theorem straight_assign (dest comp : String) :
    (∀ i ∈ Lines.code (Lowering.assign dest comp :: rest), i.Straight) ↔
      ∀ i ∈ Lines.code rest, i.Straight := by
  simp [Lowering.assign, Instruction.Straight]

end

/-! ### Transfers -/

namespace Lowering

variable {lines : List Line}

/-- A computation on the data register and a named cell. -/
theorem realizes_symbol (name comp : String) (combine : Word → Word → Word)
    (h : ∀ d a m, Mnemonic.value d a m comp.toList = combine d m) :
    Realizes lines [symbol name, assign "D" comp] fun d => do
      return combine d (← load .inCells (Lines.cell lines name)) where
  straight := by simp
  effect s := by
    simp [Store.put, Store.value, h, cellOf_ofNat, Lines.cell, bind_apply]

/-- A computation on the data register and a literal. -/
theorem realizes_literal (value : Nat) (comp : String) (combine : Word → Word → Word)
    (h : ∀ d a m, Mnemonic.value d a m comp.toList = combine d a) :
    Realizes lines [literal value, assign "D" comp] fun d =>
      return combine d (BitVec.ofNat 16 value) where
  straight := by simp
  effect s := by
    simp [Store.put, Store.value, h]

theorem realizes_addressOf (name : String) :
    Realizes lines [symbol name, assign "D" "A"] fun _ =>
      return BitVec.ofNat 16 (Lines.address lines name) where
  straight := by simp
  effect s := by
    simp [Store.put, Store.value]

theorem realizes_truth (b : Bool) :
    Realizes lines [assign "D" (Lowering.truth b)] fun _ => return StackMachine.truth b where
  straight := by simp
  effect s := by
    cases b <;> simp [Store.put, Store.value, Lowering.truth, StackMachine.truth]

theorem realizes_fetch (name : String) :
    Realizes lines [symbol name, assign "D" "M"] fun _ =>
      load .inCells (Lines.cell lines name) :=
  realizes_symbol name "M" (fun _ m => m) fun _ _ _ => rfl

theorem realizes_store (name : String) :
    Realizes lines (store name) fun d => do
      StackMachine.store .inCells (Lines.cell lines name) d
      return d where
  straight := by simp [store]
  effect s := by
    simp [store, Store.put, Store.value, cellOf_ofNat, Lines.cell, bind_apply]

theorem realizes_fetchThrough (name : String) :
    Realizes lines [symbol name, assign "A" "M", assign "D" "M"] fun _ => do
      load .inCells (cellOf (← load .inCells (Lines.cell lines name))) where
  straight := by simp
  effect s := by
    simp [Store.put, Store.value, cellOf_ofNat, Lines.cell, bind_apply]

theorem realizes_storeThrough (name : String) :
    Realizes lines [symbol name, assign "A" "M", assign "M" "D"] fun d => do
      StackMachine.store .inCells (cellOf (← load .inCells (Lines.cell lines name))) d
      return d where
  straight := by simp
  effect s := by
    simp [Store.put, Store.value, cellOf_ofNat, Lines.cell, bind_apply]

theorem realizes_increment :
    Realizes lines [symbol "SP", assign "M" "M+1"] fun d => do
      StackMachine.store .inCells sp ((← load .inCells sp) + 1)
      return d where
  straight := by simp
  effect s := by
    have cell : BitVec.ofNat 15 (Lines.address lines "SP") = sp := cell_sp
    simp [Store.put, Store.value, cellOf_ofNat, cell, bind_apply]

theorem realizes_pushData :
    Realizes lines pushData fun d => do
      push .inCells d
      return d := by
  refine ((realizes_storeThrough "SP").append realizes_increment).congr fun d => ?_
  simp [push]

/-- A computation on the data register and the top of the stack. -/
theorem realizes_popThrough (comp : String) (combine : Word → Word → Word)
    (h : ∀ d a m, Mnemonic.value d a m comp.toList = combine d m) :
    Realizes lines (popThrough comp) fun d => do
      return combine d (← pop .inCells) where
  straight := by simp [popThrough]
  effect s := by
    have cell : BitVec.ofNat 15 (Lines.address lines "SP") = sp := cell_sp
    simp [popThrough, pop, Store.put, Store.value, h, cellOf_ofNat, cell, bind_apply]

theorem realizes_popData : Realizes lines popData fun _ => pop .inCells :=
  realizes_popThrough "M" (fun _ m => m) fun _ _ _ => rfl

theorem realizes_pushNamed (name : String) :
    Realizes lines (pushNamed name) fun _ => do
      let value ← load .inCells (Lines.cell lines name)
      push .inCells value
      return value :=
  (realizes_fetch name).append realizes_pushData

end Lowering

end HackToolchain
