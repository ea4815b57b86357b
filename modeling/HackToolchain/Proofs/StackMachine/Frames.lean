import HackToolchain.Proofs.StackMachine.Memory

/-! Frames on the stack: what a call leaves there, and what a return makes of it. -/

namespace HackToolchain

/-! ### Cells by number -/

namespace Ram

/-- The word in a cell, by the number of the cell. -/
def word (ram : Ram) (number : Nat) : Word := ram.read (BitVec.ofNat 15 number)

def setWord (ram : Ram) (number : Nat) (value : Word) : Ram :=
  ram.write (BitVec.ofNat 15 number) value

variable {ram : Ram} {a b : Nat} {value : Word}

theorem word_setWord_same : (ram.setWord a value).word a = value := by
  rw [setWord, word, read_write, if_pos rfl]

theorem word_setWord_ne (ha : a < 32768) (hb : b < 32768) (h : a ≠ b) :
    (ram.setWord a value).word b = ram.word b := by
  have apart : BitVec.ofNat 15 a ≠ BitVec.ofNat 15 b := by
    intro same
    have := congrArg BitVec.toNat same
    rw [BitVec.toNat_ofNat, BitVec.toNat_ofNat] at this
    omega
  rw [setWord, word, read_write, if_neg apart]
  rfl

end Ram

namespace StackMachine

theorem word_sub_word {a b : Nat} (h : b ≤ a) :
    BitVec.ofNat 16 a - BitVec.ofNat 16 b = BitVec.ofNat 16 (a - b) := by
  apply BitVec.eq_of_toNat_eq
  rw [BitVec.toNat_sub, BitVec.toNat_ofNat, BitVec.toNat_ofNat, BitVec.toNat_ofNat]
  omega

theorem regain_inCells (cell : Cell) (kept : Word) :
    regain .inCells cell kept = load .inCells cell := rfl

theorem sp_eq : sp = BitVec.ofNat 15 0 := rfl

theorem lcl_eq : lcl = BitVec.ofNat 15 1 := rfl

theorem arg_eq : arg = BitVec.ofNat 15 2 := rfl

theorem this_eq : this = BitVec.ofNat 15 3 := rfl

theorem that_eq : that = BitVec.ofNat 15 4 := rfl

theorem addressScratch_eq : addressScratch = BitVec.ofNat 15 13 := rfl

theorem returnScratch_eq : returnScratch = BitVec.ofNat 15 14 := rfl

section

variable {ram : Ram} {s : Nat}

theorem load_word (number : Nat) :
    load .inCells (BitVec.ofNat 15 number) ram = some (ram.word number, ram) := rfl

theorem store_word (number : Nat) (value : Word) :
    store .inCells (BitVec.ofNat 15 number) value ram = some ((), ram.setWord number value) := rfl

theorem keep_word (number : Nat) (value : Word) :
    keep .inCells (BitVec.ofNat 15 number) value ram = some ((), ram.setWord number value) := rfl

theorem run_push (value : Word) (pointer : ram.word 0 = BitVec.ofNat 16 s) (low : 0 < s)
    (high : s < 32768) : push .inCells value ram =
      some ((), (ram.setWord s value).setWord 0 (BitVec.ofNat 16 (s + 1))) := by
  rw [push, sp_eq, run_bind (load_word 0), pointer, cellOf_ofNat, run_bind (store_word s value),
    run_bind (load_word 0), Ram.word_setWord_ne high (by omega) (by omega), pointer,
    BitVec.ofNat_add]
  rfl

theorem run_pop (pointer : ram.word 0 = BitVec.ofNat 16 (s + 1)) (low : 0 < s)
    (high : s < 32768) :
    pop .inCells ram = some (ram.word s, ram.setWord 0 (BitVec.ofNat 16 s)) := by
  have down : ram.word 0 - 1 = BitVec.ofNat 16 s := by
    rw [pointer]
    exact word_sub_word (show 1 ≤ s + 1 by omega)
  rw [pop, sp_eq, run_bind (load_word 0), down, run_bind (store_word 0 _), run_bind (load_word 0),
    Ram.word_setWord_same, cellOf_ofNat, load_word, Ram.word_setWord_ne (by omega) high (by omega)]

theorem run_restore {register : Nat} (kept : Word) (frame : ram.word 13 = BitVec.ofNat 16 (s + 1))
    (low : 14 ≤ s) (high : s < 32768) :
    restore .inCells (BitVec.ofNat 15 register) kept ram = some (BitVec.ofNat 16 s,
      (ram.setWord 13 (BitVec.ofNat 16 s)).setWord register (ram.word s)) := by
  have down : ram.word 13 - 1 = BitVec.ofNat 16 s := by
    rw [frame]
    exact word_sub_word (show 1 ≤ s + 1 by omega)
  have fetched : load .inCells (cellOf (BitVec.ofNat 16 s))
      (ram.setWord 13 (BitVec.ofNat 16 s)) =
        some (ram.word s, ram.setWord 13 (BitVec.ofNat 16 s)) := by
    rw [cellOf_ofNat, load_word, Ram.word_setWord_ne (by omega) high (by omega)]
  rw [restore, addressScratch_eq, regain_inCells, run_bind (load_word 13), down]
  show (keep .inCells 13#15 (BitVec.ofNat 16 s) >>= _) ram = _
  rw [run_bind (keep_word 13 _), run_bind fetched, run_bind (store_word register _)]
  rfl

end

/-! ### Calls and returns -/

variable {ram : Ram} {s : Nat}

/-- The memory after a call: the return address and the four registers are in the five cells above
the stack, and the registers of the callee point to its arguments and above the frame. -/
structure Entered (s args : Nat) (back : Word) (before after : Ram) : Prop where
  pointer : after.word 0 = BitVec.ofNat 16 (s + 5)
  locals : after.word 1 = BitVec.ofNat 16 (s + 5)
  arguments : args ≤ s → after.word 2 = BitVec.ofNat 16 (s - args)
  back : after.word s = back
  saved : ∀ k < 4, after.word (s + 1 + k) = before.word (k + 1)
  others : ∀ k < 32768, k ∉ [0, 1, 2] → (k < s ∨ s + 5 ≤ k) → after.word k = before.word k

theorem enter_frame (args : Nat) (back : Word) (pointer : ram.word 0 = BitVec.ofNat 16 s)
    (low : 16 ≤ s) (high : s + 5 < 32768) :
    ∃ after, enter .inCells args back ram = some ((), after) ∧ Entered s args back ram after := by
  have saves : ∀ (saved : Ram) (j : Nat) (value : Word), saved.word 0 = BitVec.ofNat 16 (s + j) →
      j < 5 → push .inCells value saved =
        some ((), (saved.setWord (s + j) value).setWord 0 (BitVec.ofNat 16 (s + j + 1))) :=
    fun saved j value pointer few => run_push value pointer (by omega) (by omega)
  rw [enter, lcl_eq, arg_eq, this_eq, that_eq, sp_eq,
    run_bind (saves _ 0 _ pointer (by omega)), run_bind (load_word 1),
    run_bind (saves _ 1 _ Ram.word_setWord_same (by omega)), run_bind (load_word 2),
    run_bind (saves _ 2 _ Ram.word_setWord_same (by omega)), run_bind (load_word 3),
    run_bind (saves _ 3 _ Ram.word_setWord_same (by omega)), run_bind (load_word 4),
    run_bind (saves _ 4 _ Ram.word_setWord_same (by omega)), run_bind (load_word 0),
    run_bind (store_word 2 _), run_bind (load_word 0), store_word]
  refine ⟨_, rfl, ?_, ?_, fun inside => ?_, ?_, fun k hk => ?_, fun k hk register outside => ?_⟩
  · simp (disch := omega) only [Ram.word_setWord_ne, Ram.word_setWord_same]
  · simp (disch := omega) only [Ram.word_setWord_ne, Ram.word_setWord_same]
  · have below : s + 4 + 1 - (args + Platform.frameSize) = s - args := by
      unfold Platform.frameSize
      omega
    rw [Ram.word_setWord_ne (by omega) (by omega) (by omega), Ram.word_setWord_same,
      Ram.word_setWord_same, word_sub_word (by unfold Platform.frameSize; omega), below]
  · simp (disch := omega) only [Ram.word_setWord_ne, Ram.word_setWord_same, Nat.add_zero]
  · obtain rfl | rfl | rfl | rfl : k = 0 ∨ k = 1 ∨ k = 2 ∨ k = 3 := by omega
    all_goals
      simp (disch := omega) only [Ram.word_setWord_ne, Ram.word_setWord_same, Nat.add_assoc,
        Nat.add_zero, Nat.zero_add, Nat.reduceAdd]
  · simp only [List.mem_cons, List.not_mem_nil, or_false, not_or] at register
    simp (disch := omega) only [Ram.word_setWord_ne]

/-- Pushed zeros lie above the stack, and nothing else changes but the stack pointer. -/
theorem run_pushZeros {count : Nat} (pointer : ram.word 0 = BitVec.ofNat 16 s) (low : 0 < s)
    (high : s + count ≤ 32768) :
    ∃ after, pushZeros .inCells count ram = some ((), after) ∧
      after.word 0 = BitVec.ofNat 16 (s + count) ∧ (∀ k < count, after.word (s + k) = 0) ∧
      ∀ k < 32768, k ≠ 0 → (k < s ∨ s + count ≤ k) → after.word k = ram.word k := by
  induction count generalizing ram s with
  | zero => exact ⟨ram, rfl, pointer, by simp, fun _ _ _ _ => rfl⟩
  | succ count ih =>
    have pushed : ((ram.setWord s 0).setWord 0 (BitVec.ofNat 16 (s + 1))).word 0 =
        BitVec.ofNat 16 (s + 1) := Ram.word_setWord_same
    obtain ⟨after, run, top, zeros, others⟩ := ih pushed (by omega) (by omega)
    refine ⟨after, ?_, ?_, fun k hk => ?_, fun k hk positive outside => ?_⟩
    · rw [pushZeros, run_bind (run_push 0 pointer low (by omega)), run]
    · rw [top, Nat.add_right_comm, Nat.add_assoc]
    · cases k with
      | zero =>
        rw [Nat.add_zero, others s (by omega) (by omega) (by omega),
          Ram.word_setWord_ne (by omega) (by omega) (by omega), Ram.word_setWord_same]
      | succ k =>
        rw [← Nat.add_assoc, Nat.add_right_comm]
        exact zeros k (by omega)
    · rw [others k hk positive (by omega), Ram.word_setWord_ne (by omega) hk (by omega),
        Ram.word_setWord_ne (by omega) hk (by omega)]

/-- The four registers come out of the cells below the frame pointer. -/
theorem run_restores (back : Word) (frame : ram.word 13 = BitVec.ofNat 16 (s + 5)) (low : 16 ≤ s)
    (high : s + 5 < 32768) :
    ∃ after, (do
        let frame ← restore .inCells that (BitVec.ofNat 16 (s + 5))
        let frame ← restore .inCells this frame
        let frame ← restore .inCells arg frame
        let _ ← restore .inCells lcl frame
        return back : Memory Word) ram = some (back, after) ∧
      (∀ k < 4, after.word (k + 1) = ram.word (s + 1 + k)) ∧
      ∀ k < 32768, k ∉ [1, 2, 3, 4, 13] → after.word k = ram.word k := by
  have kept : ∀ (memory : Ram) (register : Nat) (value pointer : Word), register < 13 →
      ((memory.setWord 13 pointer).setWord register value).word 13 = pointer := by
    intro memory register value pointer small
    rw [Ram.word_setWord_ne (by omega) (by omega) (by omega), Ram.word_setWord_same]
  rw [that_eq, this_eq, arg_eq, lcl_eq,
    run_bind (run_restore (s := s + 4) _ frame (by omega) (by omega)),
    run_bind (run_restore (s := s + 3) _ (kept _ 4 _ _ (by omega)) (by omega) (by omega)),
    run_bind (run_restore (s := s + 2) _ (kept _ 3 _ _ (by omega)) (by omega) (by omega)),
    run_bind (run_restore (s := s + 1) _ (kept _ 2 _ _ (by omega)) (by omega) (by omega))]
  refine ⟨_, rfl, fun k hk => ?_, fun k hk other => ?_⟩
  · obtain rfl | rfl | rfl | rfl : k = 0 ∨ k = 1 ∨ k = 2 ∨ k = 3 := by omega
    all_goals
      simp (disch := omega) only [Ram.word_setWord_ne, Ram.word_setWord_same, Nat.add_assoc,
        Nat.add_zero, Nat.zero_add, Nat.reduceAdd]
  · simp only [List.mem_cons, List.not_mem_nil, or_false, not_or] at other
    simp (disch := omega) only [Ram.word_setWord_ne]

/-- A return reads the frame below the local variables and puts the top of the stack in place of
the first argument. -/
theorem leave_frame {a t : Nat} (frame : ram.word 1 = BitVec.ofNat 16 (s + 5))
    (first : ram.word 2 = BitVec.ofNat 16 a) (pointer : ram.word 0 = BitVec.ofNat 16 (t + 1))
    (low : 16 ≤ a) (below : a ≤ s) (above : s + 5 ≤ t) (high : t < 32768) :
    ∃ after, leave .inCells ram = some (ram.word s, after) ∧
      after.word 0 = BitVec.ofNat 16 (a + 1) ∧ after.word a = ram.word t ∧
      (∀ k < 4, after.word (k + 1) = ram.word (s + 1 + k)) ∧
      ∀ k < 32768, k ∉ [0, 1, 2, 3, 4, 13, 14, a] → after.word k = ram.word k := by
  have slot : cellOf (BitVec.ofNat 16 (s + 5) - BitVec.ofNat 16 Platform.frameSize) =
      BitVec.ofNat 15 s := by
    rw [← cellOf_ofNat]
    exact congrArg cellOf (word_sub_word (show 5 ≤ s + 5 by omega))
  obtain ⟨kept, hKept⟩ : ∃ kept, kept = (ram.setWord 13 (BitVec.ofNat 16 (s + 5))).setWord 14
      (ram.word s) := ⟨_, rfl⟩
  have others : ∀ k < 32768, k ≠ 13 → k ≠ 14 → kept.word k = ram.word k := by
    intro k hk h13 h14
    rw [hKept, Ram.word_setWord_ne (by omega) hk h14.symm,
      Ram.word_setWord_ne (by omega) hk h13.symm]
  have top : kept.word 0 = BitVec.ofNat 16 (t + 1) := by
    rw [others 0 (by omega) (by omega) (by omega), pointer]
  have target : ∀ memory : Ram, memory.word 2 = kept.word 2 →
      cellOf (memory.word 2) = BitVec.ofNat 15 a := by
    intro memory same
    rw [same, others 2 (by omega) (by omega) (by omega), first, cellOf_ofNat]
  -- The memory after the result was stored, from which the registers are restored.
  obtain ⟨mid, hMid⟩ : ∃ mid, mid = ((kept.setWord 0 (BitVec.ofNat 16 t)).setWord a
      (kept.word t)).setWord 0 (BitVec.ofNat 16 (a + 1)) := ⟨_, rfl⟩
  have taken : takeDown .inCells ram = (do
      let frame ← restore .inCells that (BitVec.ofNat 16 (s + 5))
      let frame ← restore .inCells this frame
      let frame ← restore .inCells arg frame
      let _ ← restore .inCells lcl frame
      return ram.word s : Memory Word) mid := by
    have next : ((kept.setWord 0 (BitVec.ofNat 16 t)).setWord a (kept.word t)).word 2 + 1 =
        BitVec.ofNat 16 (a + 1) := by
      rw [Ram.word_setWord_ne (by omega) (by omega) (by omega),
        Ram.word_setWord_ne (by omega) (by omega) (by omega),
        others 2 (by omega) (by omega) (by omega), first, BitVec.ofNat_add]
      rfl
    rw [takeDown, lcl_eq, arg_eq, sp_eq, addressScratch_eq, returnScratch_eq,
      run_bind (load_word 1), frame, run_bind (keep_word 13 _), slot, run_bind (load_word s),
      Ram.word_setWord_ne (by omega) (by omega) (by omega), run_bind (keep_word 14 _), ← hKept,
      run_bind (run_pop top (by omega) high), run_bind (load_word 2),
      target _ (Ram.word_setWord_ne (by omega) (by omega) (by omega)),
      run_bind (store_word a _), run_bind (load_word 2), next, run_bind (store_word 0 _), ← hMid]
  have base : mid.word 13 = BitVec.ofNat 16 (s + 5) := by
    rw [hMid, hKept]
    simp (disch := omega) only [Ram.word_setWord_ne, Ram.word_setWord_same]
  have stored : ∀ k < 32768, k ∉ [0, 13, 14, a] → mid.word k = ram.word k := by
    intro k hk other
    simp only [List.mem_cons, List.not_mem_nil, or_false, not_or] at other
    rw [hMid, hKept]
    simp (disch := omega) only [Ram.word_setWord_ne]
  obtain ⟨after, run, registers, same⟩ := run_restores (ram.word s) base (by omega) (by omega)
  rw [← taken] at run
  refine ⟨after, ?_, ?_, ?_, ?_, ?_⟩
  · show (takeDown .inCells >>= fun back => regain .inCells returnScratch back) ram = _
    rw [run_bind run, returnScratch_eq, regain_inCells, load_word, same 14 (by omega) (by decide),
      hMid, hKept]
    simp (disch := omega) only [Ram.word_setWord_ne, Ram.word_setWord_same]
  · rw [same 0 (by omega) (by decide), hMid, Ram.word_setWord_same]
  · rw [same a (by omega) (by simp; omega), hMid, Ram.word_setWord_ne (by omega) (by omega)
      (by omega), Ram.word_setWord_same, others t high (by omega) (by omega)]
  · intro k hk
    rw [registers k hk, stored _ (by omega) (by simp; omega)]
  · intro k hk other
    simp only [List.mem_cons, List.not_mem_nil, or_false, not_or] at other
    rw [same k hk (by simp; omega), stored k hk (by simp; omega)]

end StackMachine

end HackToolchain
