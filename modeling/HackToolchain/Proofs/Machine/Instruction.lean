import HackToolchain.Assembly.Assemble
import HackToolchain.Machine.Cpu
import HackToolchain.Proofs.Assembly.Reading
import HackToolchain.Proofs.Assembly.Resolution

/-! What the processor does with the word of an instruction, in terms of its spelling: the value
that the computation spells, the letters of the destinations and the condition that the jump
names. -/

namespace HackToolchain

namespace Mnemonic

/-! ### The meaning of the three parts -/

/-- The value of a letter or digit of a computation. -/
def operandValue (d a m : Word) : Char → Word
  | 'D' => d
  | 'A' => a
  | 'M' => m
  | '1' => 1
  | _ => 0

/-- The value of a computation, read as the expression that it spells. -/
def value (d a m : Word) : List Char → Word
  | [x] => operandValue d a m x
  | ['-', x] => -operandValue d a m x
  | ['!', x] => ~~~operandValue d a m x
  | [x, '+', y] => operandValue d a m x + operandValue d a m y
  | [x, '-', y] => operandValue d a m x - operandValue d a m y
  | [x, '&', y] => operandValue d a m x &&& operandValue d a m y
  | [x, '|', y] => operandValue d a m x ||| operandValue d a m y
  | _ => 0

section

variable (d a m : Word)

@[simp] theorem value_zero : value d a m ['0'] = 0 := rfl

@[simp] theorem value_minusOne : value d a m ['-', '1'] = -1 := rfl

@[simp] theorem value_data : value d a m ['D'] = d := rfl

@[simp] theorem value_address : value d a m ['A'] = a := rfl

@[simp] theorem value_cell : value d a m ['M'] = m := rfl

@[simp] theorem value_increment : value d a m ['M', '+', '1'] = m + 1 := rfl

@[simp] theorem value_decrement : value d a m ['M', '-', '1'] = m - 1 := rfl

@[simp] theorem value_difference : value d a m ['D', '-', 'A'] = d - a := rfl

end

/-- Whether a signed result meets the condition that a jump names. -/
def condition (jmp : String) (out : Word) : Bool :=
  match jmp with
  | "JGT" => 0 < out.toInt
  | "JEQ" => out.toInt = 0
  | "JGE" => 0 ≤ out.toInt
  | "JLT" => out.toInt < 0
  | "JNE" => out.toInt ≠ 0
  | "JLE" => out.toInt ≤ 0
  | "JMP" => true
  | _ => false

/-! ### The fields of a word -/

theorem getLsbD_jump (c : BitVec 7) (d j : BitVec 3) {i : Nat} (h : i < 3) :
    (0b111#3 ++ c ++ d ++ j).getLsbD i = j.getLsbD i := by
  rw [BitVec.getLsbD_append, if_pos h]

theorem getLsbD_dest (c : BitVec 7) (d j : BitVec 3) {i : Nat} (h : i < 3) :
    (0b111#3 ++ c ++ d ++ j).getLsbD (3 + i) = d.getLsbD i := by
  rw [BitVec.getLsbD_append, if_neg (by omega), BitVec.getLsbD_append, if_pos (by omega),
    show 3 + i - 3 = i by omega]

theorem getLsbD_comp (c : BitVec 7) (d j : BitVec 3) {i : Nat} (h : i < 7) :
    (0b111#3 ++ c ++ d ++ j).getLsbD (6 + i) = c.getLsbD i := by
  rw [BitVec.getLsbD_append, if_neg (by omega), BitVec.getLsbD_append, if_neg (by omega),
    BitVec.getLsbD_append, if_pos (by omega), show 6 + i - 3 - 3 = i by omega]

theorem msb_word (c : BitVec 7) (d j : BitVec 3) : (0b111#3 ++ c ++ d ++ j).msb = true := by
  rw [BitVec.msb_append, if_neg (by omega), BitVec.msb_append, if_neg (by omega),
    BitVec.msb_append, if_neg (by omega)]
  rfl

theorem extract_comp (c : BitVec 7) (d j : BitVec 3) :
    (0b111#3 ++ c ++ d ++ j).extractLsb' 6 6 = c.extractLsb' 0 6 := by
  apply BitVec.eq_of_getLsbD_eq
  intro i hi
  rw [BitVec.getLsbD_extractLsb', BitVec.getLsbD_extractLsb', getLsbD_comp c d j (by omega),
    Nat.zero_add]

theorem extract_jump (c : BitVec 7) (d j : BitVec 3) :
    (0b111#3 ++ c ++ d ++ j).extractLsb' 0 3 = j := by
  apply BitVec.eq_of_getLsbD_eq
  intro i hi
  rw [BitVec.getLsbD_extractLsb', Nat.zero_add, getLsbD_jump c d j hi]
  simp [hi]

/-! ### The tables -/

theorem ones_and (x : Word) : 65535#16 &&& x = x := BitVec.allOnes_and

theorem and_ones (x : Word) : x &&& 65535#16 = x := BitVec.and_allOnes

theorem not_and_not (x y : Word) : ~~~(~~~x &&& ~~~y) = x ||| y := by
  rw [BitVec.not_and, BitVec.not_not, BitVec.not_not]

/-- The control bits of a computation make the unit compute what it spells. -/
theorem alu_computation (d a m : Word) : ∀ entry ∈ computations,
    alu (entry.2.extractLsb' 0 6) d (if entry.2.getLsbD 6 then m else a) =
      value d a m entry.1.toList := by
  intro entry h
  simp only [computations, List.mem_cons, List.not_mem_nil, or_false] at h
  rcases h with rfl | rfl | rfl | rfl | rfl | rfl | rfl | rfl | rfl | rfl | rfl | rfl | rfl | rfl |
    rfl | rfl | rfl | rfl | rfl | rfl | rfl | rfl | rfl | rfl | rfl | rfl | rfl | rfl | rfl | rfl |
    rfl | rfl | rfl | rfl <;>
    simp [alu, value, operandValue, ones_and, and_ones, not_and_not]
  -- What is left are sums that were computed through complements, and operands the other way.
  all_goals first
    | bv_omega
    | exact BitVec.and_comm ..
    | exact BitVec.or_comm ..

theorem destination_letters : ∀ entry ∈ destinations,
    entry.2.getLsbD 2 = entry.1.toList.contains 'A' ∧
      entry.2.getLsbD 1 = entry.1.toList.contains 'D' ∧
        entry.2.getLsbD 0 = entry.1.toList.contains 'M' := by
  decide

theorem jumpTaken_eq (out : Word) : ∀ entry ∈ jumps,
    jumpTaken entry.2 out = condition entry.1 out := by
  have negative : out.msb = decide (out.toInt < 0) := BitVec.msb_eq_toInt
  have zero : out = 0#16 ↔ out.toInt = 0 := by
    rw [← BitVec.toInt_inj]
    rfl
  intro entry h
  simp only [jumps, List.mem_cons, List.not_mem_nil, or_false] at h
  rcases h with rfl | rfl | rfl | rfl | rfl | rfl | rfl | rfl <;>
    rw [Bool.eq_iff_iff] <;>
    simp [jumpTaken, condition, negative, zero]
  all_goals omega

end Mnemonic

/-! ### The effect of an instruction -/

/-- The registers and the memory that instructions work on. -/
structure Store where
  a : Word
  d : Word
  ram : Ram

namespace Store

variable {s : Store} {rom : Array Word} {pc : Nat} {word : Word}

/-- The processor with this store at an address of a program. -/
def cpu (s : Store) (rom : Array Word) (pc : Nat) : Cpu := ⟨rom, s.ram, s.a, s.d, pc, false⟩

/-- The processor with this store after a jump, which may have parked it. -/
def jumped (s : Store) (rom : Array Word) (pc : Nat) (parked : Bool) : Cpu :=
  ⟨rom, s.ram, s.a, s.d, pc, parked⟩

theorem pc_jumped (s : Store) (rom : Array Word) (pc : Nat) (parked : Bool) :
    (s.jumped rom pc parked).pc = pc := rfl

def value (s : Store) (comp : String) : Word :=
  Mnemonic.value s.d s.a (s.ram.read (cellOf s.a)) comp.toList

/-- A result in some destinations; the cell is the one that was addressed before. -/
def put (s : Store) (dest : String) (out : Word) : Store where
  ram := if dest.toList.contains 'M' then s.ram.write (cellOf s.a) out else s.ram
  a := if dest.toList.contains 'A' then out else s.a
  d := if dest.toList.contains 'D' then out else s.d

theorem toNat_of_encodeAddress {address : Nat} (h : encodeAddress address = .ok word) :
    word.toNat = address := by
  obtain ⟨fits, rfl⟩ := encodeAddress_eq_ok.mp h
  rw [BitVec.toNat_ofNat]
  rw [Platform.maxAddress] at fits
  omega

/-- An address word is loaded into the address register. -/
theorem execute_address {address : Nat} (h : encodeAddress address = .ok word) :
    (s.cpu rom pc).execute word = { s with a := BitVec.ofNat 16 address }.cpu rom (pc + 1) := by
  have small := toNat_of_encodeAddress h
  obtain ⟨fits, rfl⟩ := encodeAddress_eq_ok.mp h
  rw [Platform.maxAddress] at fits
  have positive : (BitVec.ofNat 16 address).msb = false := by
    rw [BitVec.msb_eq_false_iff_two_mul_lt]
    omega
  rw [Cpu.execute, positive]
  rfl

/-- A compute word does what its mnemonics say. -/
theorem execute_compute {dest comp jmp : String} (h : Mnemonic.encode dest comp jmp = .ok word) :
    (s.cpu rom pc).execute word =
      if Mnemonic.condition jmp (s.value comp) then
        (s.put dest (s.value comp)).jumped rom s.a.toNat ((s.cpu rom pc).isParked s.a)
      else (s.put dest (s.value comp)).cpu rom (pc + 1) := by
  obtain ⟨c, d, j, hComp, hDest, hJump, rfl⟩ := Mnemonic.encode_eq_ok.mp h
  obtain ⟨letterA, letterD, letterM⟩ :=
    Mnemonic.destination_letters _ (Mnemonic.mem_of_lookup hDest)
  have out : (s.cpu rom pc).result (0b111#3 ++ c ++ d ++ j) = s.value comp := by
    rw [value, ← Mnemonic.alu_computation _ _ _ _ (Mnemonic.mem_of_lookup hComp), Cpu.result,
      Cpu.operand, ← Mnemonic.getLsbD_comp c d j (by omega), ← Mnemonic.extract_comp c d j]
    rfl
  have taken : jumpTaken ((0b111#3 ++ c ++ d ++ j).extractLsb' 0 3) (s.value comp) =
      Mnemonic.condition jmp (s.value comp) := by
    rw [Mnemonic.extract_jump, Mnemonic.jumpTaken_eq _ _ (Mnemonic.mem_of_lookup hJump)]
  have stores : (s.cpu rom pc).store (0b111#3 ++ c ++ d ++ j) (s.value comp) =
      (s.put dest (s.value comp)).cpu rom pc := by
    rw [Cpu.store, put, ← letterA, ← letterD, ← letterM, ← Mnemonic.getLsbD_dest c d j (by omega),
      ← Mnemonic.getLsbD_dest c d j (by omega), ← Mnemonic.getLsbD_dest c d j (by omega)]
    rfl
  have compute : (s.cpu rom pc).execute (0b111#3 ++ c ++ d ++ j) =
      (s.cpu rom pc).compute (0b111#3 ++ c ++ d ++ j) := by
    rw [Cpu.execute, if_pos (Mnemonic.msb_word c d j)]
  rw [compute, Cpu.compute]
  simp only [out, taken, stores]
  rfl

end Store

/-- The processor that stands at an address of a program. -/
theorem Cpu.eq_cpu {cpu : Cpu} (running : cpu.halted = false) :
    cpu = (Store.mk cpu.a cpu.d cpu.ram).cpu cpu.rom cpu.pc := by
  cases cpu
  cases running
  rfl

end HackToolchain
