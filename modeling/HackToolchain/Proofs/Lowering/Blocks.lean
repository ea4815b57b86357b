import HackToolchain.Lowering.Session
import HackToolchain.Proofs.Except

/-! The program of a list of commands as a list of blocks. Each command gets the number after those
that the commands before it took up, and its block depends on this number and on nothing else. -/

namespace HackToolchain

namespace Command

/-- The commands of a list, each with the number that its made-up labels carry. -/
def numberFrom : Nat → List Command → List (Nat × Command)
  | _, [] => []
  | number, c :: rest => (number, c) :: numberFrom (number + c.numbersTaken) rest

/-- The next number after a list of commands. -/
def numberAfter (number : Nat) : List Command → Nat
  | [] => number
  | c :: rest => numberAfter (number + c.numbersTaken) rest

theorem map_snd_numberFrom (number : Nat) (commands : List Command) :
    (numberFrom number commands).map (·.2) = commands := by
  induction commands generalizing number with
  | nil => rfl
  | cons c rest ih => rw [numberFrom, List.map_cons, ih]

theorem mem_of_mem_numberFrom {number start : Nat} {commands : List Command} {c : Command}
    (inside : (number, c) ∈ numberFrom start commands) : c ∈ commands := by
  rw [← map_snd_numberFrom start commands]
  exact List.mem_map_of_mem inside

/-- The block of a command under its number. -/
def numberedBlock (entry : Nat × Command) : Except Defect Block := entry.2.block entry.1

theorem block_eq_ok {number : Nat} {c : Command} {block : Block} :
    c.block number = .ok block ↔
      c.fragment number = .ok block.body ∧ block.title = c.text := by
  rw [Command.block, Except.map_eq_ok]
  constructor
  · rintro ⟨body, same, rfl⟩
    exact ⟨same, rfl⟩
  · rintro ⟨same, title⟩
    exact ⟨block.body, same, title ▸ rfl⟩

end Command

namespace Session

theorem bind_eq_ok {α β : Type} {x : Session α} {f : α → Session β} {number after : Nat} {b : β} :
    (x >>= f).run.run number = (.ok b, after) ↔
      ∃ a mid, x.run.run number = (.ok a, mid) ∧ (f a).run.run mid = (.ok b, after) := by
  rw [ExceptT.run_bind, StateT.run_bind]
  generalize x.run.run number = outcome
  obtain ⟨result, mid⟩ := outcome
  constructor
  · intro h
    cases result with
    | ok a => exact ⟨a, mid, rfl, h⟩
    | error defect => cases h
  · rintro ⟨a, mid, same, h⟩
    cases same
    exact h

/-- What is made in a session has found room for its numbers. -/
theorem issue_eq_ok {α : Type} {taken number after : Nat} {make : Nat → Except Defect α} {a : α} :
    (issue taken make).run.run number = (.ok a, after) ↔
      make number = .ok a ∧ after = number + taken ∧ after < limit := by
  rw [run_issue]
  split
  · next room =>
    rw [Prod.mk.injEq]
    constructor
    · rintro ⟨made, rfl⟩
      exact ⟨made, rfl, room⟩
    · rintro ⟨made, rfl, -⟩
      exact ⟨made, rfl⟩
  · next full =>
    constructor
    · intro h
      cases h
    · rintro ⟨-, rfl, room⟩
      exact absurd room full

theorem run_mapM_command {commands : List Command} {number after : Nat} {blocks : List Block}
    (h : (commands.mapM command).run.run number = (.ok blocks, after)) :
    (Command.numberFrom number commands).mapM Command.numberedBlock = .ok blocks ∧
      after = Command.numberAfter number commands := by
  induction commands generalizing number blocks with
  | nil =>
    cases h
    exact ⟨rfl, rfl⟩
  | cons c rest ih =>
    rw [List.mapM_cons] at h
    obtain ⟨block, mid, here, h⟩ := bind_eq_ok.mp h
    obtain ⟨others, final, later, last⟩ := bind_eq_ok.mp h
    cases last
    obtain ⟨made, rfl, -⟩ := issue_eq_ok.mp here
    obtain ⟨blocks, rfl⟩ := ih later
    exact ⟨mapM_cons_eq_ok.mpr ⟨block, others, made, blocks, rfl⟩, rfl⟩

/-! ### The blocks around the commands -/

/-- The number of the first command in a session that has come to a number. -/
def firstNumber (options : Options) (number : Nat) : Nat :=
  number + if options.bootstrap then 1 else 0

def firstBlocks (options : Options) (number : Nat) : List Block :=
  if options.bootstrap then [⟨"bootstrap", Lowering.bootstrap number⟩] else []

def lastBlocks (options : Options) (number : Nat) : List Block :=
  if options.terminate then [⟨"end program", Lowering.endLoop number⟩] else []

theorem length_firstBlocks (options : Options) (number : Nat) :
    (firstBlocks options number).length = if options.bootstrap then 1 else 0 := by
  rw [firstBlocks]
  split <;> rfl

variable {options : Options} {number after : Nat} {blocks : List Block}

theorem singleton_eq_ok {x : Session Block}
    (h : (List.singleton <$> x).run.run number = (.ok blocks, after)) :
    ∃ block, x.run.run number = (.ok block, after) ∧ blocks = [block] := by
  rw [map_eq_pure_bind] at h
  obtain ⟨block, mid, made, h⟩ := bind_eq_ok.mp h
  cases h
  exact ⟨block, made, rfl⟩

theorem run_first (h : (first options).run.run number = (.ok blocks, after)) :
    blocks = firstBlocks options number ∧ after = firstNumber options number := by
  rw [first] at h
  rw [firstBlocks, firstNumber]
  split at h
  · next bootstraps =>
    obtain ⟨block, made, rfl⟩ := singleton_eq_ok h
    obtain ⟨same, rfl, -⟩ := issue_eq_ok.mp made
    cases same
    rw [if_pos bootstraps, if_pos bootstraps]
    exact ⟨rfl, rfl⟩
  · next none =>
    cases h
    rw [if_neg none, if_neg none]
    exact ⟨rfl, rfl⟩

theorem run_last (h : (last options).run.run number = (.ok blocks, after)) :
    blocks = lastBlocks options number := by
  rw [last] at h
  rw [lastBlocks]
  split at h
  · next terminates =>
    obtain ⟨block, made, rfl⟩ := singleton_eq_ok h
    obtain ⟨same, -⟩ := issue_eq_ok.mp made
    cases same
    rw [if_pos terminates]
  · next none =>
    cases h
    rw [if_neg none]

end Session

open Session in
/-- A translated program has one block for each command, between the bootstrap code and the closing
loop. The numbers of the blocks follow from that of the session before. -/
theorem Program.blocks_of_session {commands : List Command} {options : Options} {number : Nat}
    {program : Program}
    (h : ((Session.program commands options).run.run number).1 = .ok program) :
    ∃ blocks,
      (Command.numberFrom (firstNumber options number) commands).mapM Command.numberedBlock =
        .ok blocks ∧
      program.blocks = firstBlocks options number ++ blocks ++
        lastBlocks options (Command.numberAfter (firstNumber options number) commands) := by
  generalize hRun : (Session.program commands options).run.run number = outcome at h
  obtain ⟨result, final⟩ := outcome
  cases h
  obtain ⟨front, mid, hFirst, hRun⟩ := bind_eq_ok.mp hRun
  obtain ⟨blocks, after, hBlocks, hRun⟩ := bind_eq_ok.mp hRun
  obtain ⟨back, _, hLast, hRun⟩ := bind_eq_ok.mp hRun
  cases hRun
  obtain ⟨rfl, rfl⟩ := run_first hFirst
  obtain ⟨translated, rfl⟩ := run_mapM_command hBlocks
  obtain rfl := run_last hLast
  exact ⟨blocks, translated, rfl⟩

end HackToolchain
