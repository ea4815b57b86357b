import HackToolchain.Proofs.StackMachine.Machine

/-! The machine whose scratch registers lie outside of memory is imitated by the one that has them
in their cells: both do the same, and their memories agree in all other cells. -/

namespace HackToolchain.StackMachine

/-! ### Memories that agree -/

/-- The cells that both machines can see hold the same words. -/
def Agree (ram other : Ram) : Prop :=
  ∀ cell, cell ≠ addressScratch → cell ≠ returnScratch → ram.read cell = other.read cell

/-- Memories that agree, where the second one may also have known words in the scratch registers. -/
structure Keeps (address back : Option Word) (ram other : Ram) : Prop where
  agree : Agree ram other
  address : ∀ kept ∈ address, other.read addressScratch = kept
  back : ∀ kept ∈ back, other.read returnScratch = kept

theorem Keeps.forget {address back : Option Word} {ram other : Ram}
    (h : Keeps address back ram other) : Keeps none none ram other :=
  ⟨h.agree, by simp, by simp⟩

/-- Whatever the first computation does, the second one does from memories that are related. -/
def Mimics {α : Type} (before : Ram → Ram → Prop) (m m' : Memory α)
    (after : α → Ram → Ram → Prop) : Prop :=
  ∀ ram other a final, before ram other → m ram = some (a, final) →
    ∃ final', m' other = some (a, final') ∧ after a final final'

section

variable {α β : Type} {before mid : Ram → Ram → Prop} {m m' : Memory α} {k k' : α → Memory β}

theorem Mimics.bind {between : α → Ram → Ram → Prop} {after : β → Ram → Ram → Prop}
    (h : Mimics before m m' between) (rest : ∀ a, Mimics (between a) (k a) (k' a) after) :
    Mimics before (m >>= k) (m' >>= k') after := by
  intro ram other b final related run
  obtain ⟨a, mid, first, last⟩ := bind_eq_some.mp run
  obtain ⟨mid', first', related'⟩ := h ram other a mid related first
  obtain ⟨final', last', done⟩ := rest a mid mid' b final related' last
  exact ⟨final', bind_eq_some.mpr ⟨a, mid', first', last'⟩, done⟩

theorem Mimics.answer (after : α → Ram → Ram → Prop) (a : α) :
    Mimics (after a) (Pure.pure a) (Pure.pure a) after := by
  intro ram other b final related run
  cases run
  exact ⟨other, rfl, related⟩

theorem Mimics.weaken {after after' : α → Ram → Ram → Prop} (h : Mimics before m m' after)
    (weaker : ∀ a ram other, after a ram other → after' a ram other) :
    Mimics before m m' after' := by
  intro ram other a final related run
  obtain ⟨final', run', done⟩ := h ram other a final related run
  exact ⟨final', run', weaker a final final' done⟩

theorem Mimics.pure (a : α) : Mimics before (Pure.pure a) (Pure.pure a) fun _ => before :=
  Mimics.answer (fun _ => before) a

/-- A computation that does not use the memory. -/
theorem Mimics.lift (answer : Option α) :
    Mimics before (fun ram => answer.map fun a => (a, ram))
      (fun ram => answer.map fun a => (a, ram)) fun _ => before := by
  intro ram other a final related run
  obtain ⟨b, found, same⟩ := Option.map_eq_some_iff.mp run
  cases same
  exact ⟨other, Option.map_eq_some_iff.mpr ⟨a, found, rfl⟩, related⟩

end

/-! ### Cells -/

section

variable {address back : Option Word} {cell : Cell} {value : Word}

theorem mimics_load (cell : Cell) :
    Mimics (Keeps address back) (load .apart cell) (load .inCells cell)
      fun _ => Keeps address back := by
  intro ram other a final related run
  rw [load] at run
  split at run
  · next visible =>
    cases run
    have outside : cell ≠ addressScratch ∧ cell ≠ returnScratch := of_decide_eq_true visible
    refine ⟨other, ?_, related⟩
    rw [load, related.agree cell outside.1 outside.2]
    rfl
  · cases run

theorem mimics_store (cell : Cell) (value : Word) :
    Mimics (Keeps address back) (store .apart cell value) (store .inCells cell value)
      fun _ => Keeps address back := by
  intro ram other a final related run
  rw [store] at run
  split at run
  · next visible =>
    cases run
    have outside : cell ≠ addressScratch ∧ cell ≠ returnScratch := of_decide_eq_true visible
    refine ⟨other.write cell value, rfl, ?_, ?_, ?_⟩
    · intro read first second
      rw [Ram.read_write, Ram.read_write, related.agree read first second]
    · intro kept known
      rw [Ram.read_write, if_neg outside.1]
      exact related.address kept known
    · intro kept known
      rw [Ram.read_write, if_neg outside.2]
      exact related.back kept known
  · cases run

theorem mimics_keep_address (value : Word) :
    Mimics (Keeps address back) (keep .apart addressScratch value)
      (keep .inCells addressScratch value) fun _ => Keeps (some value) back := by
  intro ram other a final related run
  cases run
  refine ⟨other.write addressScratch value, rfl, ?_, ?_, ?_⟩
  · intro read first second
    rw [Ram.read_write, if_neg first.symm]
    exact related.agree read first second
  · rintro kept ⟨⟩
    rw [Ram.read_write, if_pos rfl]
  · intro kept known
    rw [Ram.read_write, if_neg (by decide)]
    exact related.back kept known

theorem mimics_keep_back (value : Word) :
    Mimics (Keeps address back) (keep .apart returnScratch value)
      (keep .inCells returnScratch value) fun _ => Keeps address (some value) := by
  intro ram other a final related run
  cases run
  refine ⟨other.write returnScratch value, rfl, ?_, ?_, ?_⟩
  · intro read first second
    rw [Ram.read_write, if_neg second.symm]
    exact related.agree read first second
  · intro kept known
    rw [Ram.read_write, if_neg (by decide)]
    exact related.address kept known
  · rintro kept ⟨⟩
    rw [Ram.read_write, if_pos rfl]

/-- What was kept is what both machines go on with. -/
theorem Mimics.regain_address {α : Type} {k k' : Word → Memory α}
    {after : α → Ram → Ram → Prop} (kept : Word)
    (rest : Mimics (Keeps (some kept) back) (k kept) (k' kept) after) :
    Mimics (Keeps (some kept) back) (regain .apart addressScratch kept >>= k)
      (regain .inCells addressScratch kept >>= k') after := by
  intro ram other a final related run
  obtain ⟨_, _, regained, run⟩ := bind_eq_some.mp run
  cases regained
  obtain ⟨final', run', done⟩ := rest ram other a final related run
  refine ⟨final', bind_eq_some.mpr ⟨kept, other, ?_, run'⟩, done⟩
  show some (other.read addressScratch, other) = _
  rw [related.address kept rfl]

theorem mimics_regain_back (kept : Word) :
    Mimics (Keeps none (some kept)) (regain .apart returnScratch kept)
      (regain .inCells returnScratch kept) fun _ => Keeps none none := by
  intro ram other a final related run
  cases run
  refine ⟨other, ?_, related.forget⟩
  show some (other.read returnScratch, other) = _
  rw [related.back _ rfl]

/-! ### The stack -/

theorem mimics_push (value : Word) :
    Mimics (Keeps address back) (push .apart value) (push .inCells value)
      fun _ => Keeps address back :=
  (mimics_load sp).bind fun pointer => (mimics_store (cellOf pointer) value).bind fun _ =>
    (mimics_load sp).bind fun top => mimics_store sp (top + 1)

theorem mimics_pop :
    Mimics (Keeps address back) (pop .apart) (pop .inCells) fun _ => Keeps address back :=
  (mimics_load sp).bind fun pointer => (mimics_store sp (pointer - 1)).bind fun _ =>
    (mimics_load sp).bind fun top => mimics_load (cellOf top)

theorem mimics_pushZeros (count : Nat) :
    Mimics (Keeps address back) (pushZeros .apart count) (pushZeros .inCells count)
      fun _ => Keeps address back := by
  induction count with
  | zero => exact .pure ()
  | succ count ih => exact (mimics_push 0).bind fun _ => ih

theorem mimics_operate (op : Operator) :
    Mimics (Keeps address back) (operate .apart op) (operate .inCells op)
      fun _ => Keeps address back := by
  have binary : ∀ value, Mimics (Keeps address back) (operate.binary .apart value)
      (operate.binary .inCells value) fun _ => Keeps address back := fun value =>
    mimics_pop.bind fun right => mimics_pop.bind fun left => mimics_push (value left right)
  cases op with
  | neg | not => exact mimics_pop.bind fun top => mimics_push _
  | add | sub | and | or | eq | gt | lt => exact binary _

/-! ### Segments -/

theorem mimics_addressed (target : Word) :
    Mimics (Keeps none none) (addressed .apart target) (addressed .inCells target)
      fun _ => Keeps none none :=
  ((mimics_keep_address target).bind fun _ => .pure (cellOf target)).weaken
    fun _ _ _ related => related.forget

theorem mimics_indirect (base : Cell) (index : Nat) :
    Mimics (Keeps none none) (indirect .apart base index) (indirect .inCells base index)
      fun _ => Keeps none none :=
  ((mimics_load base).bind fun start => .pure (start + BitVec.ofNat 16 index)).bind
    mimics_addressed

variable {statics : String → Nat → Cell}

theorem mimics_segmentCell (segment : Segment) (index : Nat) (file : String) :
    Mimics (Keeps none none) (segmentCell .apart statics segment index file)
      (segmentCell .inCells statics segment index file) fun _ => Keeps none none := by
  cases segment with
  | argument | localVar | this | that => exact mimics_indirect _ index
  | temp => exact mimics_addressed _
  | pointer | staticVar => exact .pure _
  | constant =>
    intro ram other a final related run
    cases run

theorem mimics_access (op : StackOp) (segment : Segment) (index : Nat) (file : String) :
    Mimics (Keeps none none) (access .apart statics op segment index file)
      (access .inCells statics op segment index file) fun _ => Keeps none none := by
  cases op with
  | push =>
    simp only [access]
    split
    · exact mimics_push _
    · exact (mimics_segmentCell segment index file).bind fun cell =>
        (mimics_load cell).bind mimics_push
  | pop =>
    exact (mimics_segmentCell segment index file).bind fun cell =>
      mimics_pop.bind (mimics_store cell)

/-! ### Frames -/

theorem mimics_enter (args : Nat) (address : Word) :
    Mimics (Keeps none none) (enter .apart args address) (enter .inCells args address)
      fun _ => Keeps none none :=
  (mimics_push address).bind fun _ =>
    (mimics_load lcl).bind fun value => (mimics_push value).bind fun _ =>
    (mimics_load arg).bind fun value => (mimics_push value).bind fun _ =>
    (mimics_load this).bind fun value => (mimics_push value).bind fun _ =>
    (mimics_load that).bind fun value => (mimics_push value).bind fun _ =>
    (mimics_load sp).bind fun _ => (mimics_store arg _).bind fun _ =>
    (mimics_load sp).bind fun _ => mimics_store lcl _

theorem mimics_restore (register : Cell) (kept : Word) :
    Mimics (Keeps (some kept) back) (restore .apart register kept)
      (restore .inCells register kept) fun frame => Keeps (some frame) back :=
  Mimics.regain_address kept <| (mimics_keep_address (kept - 1)).bind fun _ =>
    (mimics_load (cellOf (kept - 1))).bind fun value => (mimics_store register value).bind fun _ =>
    Mimics.answer (fun frame => Keeps (some frame) back) (kept - 1)

theorem mimics_takeDown :
    Mimics (Keeps none none) (takeDown .apart) (takeDown .inCells)
      fun kept => Keeps none (some kept) := by
  refine (mimics_load lcl).bind fun frame => (mimics_keep_address frame).bind fun _ =>
    (mimics_load _).bind fun kept => (mimics_keep_back kept).bind fun _ =>
    mimics_pop.bind fun result => (mimics_load arg).bind fun first =>
    (mimics_store (cellOf first) result).bind fun _ => (mimics_load arg).bind fun first =>
    (mimics_store sp (first + 1)).bind fun _ => (mimics_restore that frame).bind fun frame =>
    (mimics_restore this frame).bind fun frame => (mimics_restore arg frame).bind fun frame =>
    (mimics_restore lcl frame).bind fun frame => ?_
  intro ram other a final related run
  cases run
  exact ⟨other, rfl, related.agree, by simp, related.back⟩

theorem mimics_leave :
    Mimics (Keeps none none) (leave .apart) (leave .inCells) fun _ => Keeps none none :=
  mimics_takeDown.bind mimics_regain_back

/-! ### Commands -/

variable {place : Placement} {commands : List Command}

theorem mimics_execute (index : Nat) (c : Command) :
    Mimics (Keeps none none) (execute .apart place commands index c)
      (execute .inCells place commands index c) fun _ => Keeps none none := by
  have next : Mimics (Keeps none none) (pure (index + 1)) (pure (index + 1))
      fun _ => Keeps none none := .pure _
  have jump : ∀ name, Mimics (Keeps none none) (target commands name) (target commands name)
      fun _ => Keeps none none := fun name => .lift _
  cases c with
  | operator op => exact (mimics_operate op).bind fun _ => next
  | access op segment offset file => exact (mimics_access op segment _ file).bind fun _ => next
  | label name => exact next
  | goto name => exact jump name
  | ifGoto name =>
    refine mimics_pop.bind fun condition => ?_
    split
    · exact next
    · exact jump name
  | function name locals => exact (mimics_pushZeros _).bind fun _ => next
  | call name args => exact (mimics_enter _ _).bind fun _ => jump name
  | ret => exact mimics_leave.bind fun kept => .lift _

theorem mimics_boot : Mimics (Keeps none none) (boot .apart place commands)
    (boot .inCells place commands) fun _ => Keeps none none :=
  (mimics_store sp _).bind fun _ => (mimics_enter 0 _).bind fun _ => .lift _

/-! ### Steps -/

/-- The memory of a machine agrees with one that has the scratch registers in their cells. -/
def Scratch.Agree : Scratch → Ram → Ram → Prop
  | .inCells => Eq
  | .apart => StackMachine.Agree

theorem step_eq_some {scratch : Scratch} {state final : State} :
    step scratch place commands state = some final ↔ ∃ c, commands[state.next]? = some c ∧
      execute scratch place commands state.next c state.ram = some (final.next, final.ram) := by
  simp only [step, bind, pure, Option.bind_eq_some_iff, Prod.exists]
  constructor
  · rintro ⟨c, found, next, ram, run, same⟩
    cases same
    exact ⟨c, found, run⟩
  · rintro ⟨c, found, run⟩
    exact ⟨c, found, final.next, final.ram, run, rfl⟩

theorem step_agree {scratch : Scratch} {state final : State} {ram : Ram}
    (related : scratch.Agree state.ram ram)
    (run : step scratch place commands state = some final) :
    ∃ ram', step .inCells place commands ⟨state.next, ram⟩ = some ⟨final.next, ram'⟩ ∧
      scratch.Agree final.ram ram' := by
  cases scratch with
  | inCells =>
    cases related
    exact ⟨final.ram, run, rfl⟩
  | apart =>
    obtain ⟨c, found, executed⟩ := step_eq_some.mp run
    obtain ⟨ram', same, kept⟩ := mimics_execute state.next c state.ram ram final.next final.ram
      ⟨related, by simp, by simp⟩ executed
    exact ⟨ram', step_eq_some.mpr ⟨c, found, same⟩, kept.agree⟩

theorem start_agree {scratch : Scratch} {options : Options} {state : State} {ram other : Ram}
    (related : scratch.Agree ram other)
    (started : start scratch place commands options ram = some state) :
    ∃ ram', start .inCells place commands options other = some ⟨state.next, ram'⟩ ∧
      scratch.Agree state.ram ram' := by
  cases scratch with
  | inCells =>
    cases related
    exact ⟨state.ram, started, rfl⟩
  | apart =>
    rw [start] at started ⊢
    by_cases bootstrap : options.bootstrap
    · rw [if_pos bootstrap] at started ⊢
      obtain ⟨⟨next, mid⟩, booted, rfl⟩ := Option.map_eq_some_iff.mp started
      obtain ⟨ram', booted, kept⟩ :=
        mimics_boot ram other next mid ⟨related, by simp, by simp⟩ booted
      exact ⟨ram', Option.map_eq_some_iff.mpr ⟨(next, ram'), booted, rfl⟩, kept.agree⟩
    · rw [if_neg bootstrap] at started ⊢
      cases started
      exact ⟨other, rfl, related⟩

theorem run_agree {scratch : Scratch} {count : Nat} {state final : State} {ram : Ram}
    (related : scratch.Agree state.ram ram)
    (runs : run scratch place commands count state = some final) :
    ∃ ram', run .inCells place commands count ⟨state.next, ram⟩ = some ⟨final.next, ram'⟩ ∧
      scratch.Agree final.ram ram' := by
  induction count generalizing state ram with
  | zero =>
    cases runs
    exact ⟨ram, rfl, related⟩
  | succ count ih =>
    obtain ⟨mid, first, rest⟩ := Option.bind_eq_some_iff.mp runs
    obtain ⟨ram', first', related'⟩ := step_agree related first
    obtain ⟨last, rest', done⟩ := ih related' rest
    exact ⟨last, Option.bind_eq_some_iff.mpr ⟨_, first', rest'⟩, done⟩

end

end HackToolchain.StackMachine
