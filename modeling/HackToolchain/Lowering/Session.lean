import HackToolchain.Command.Basic
import HackToolchain.Lowering.Flow
import HackToolchain.Lowering.Frame
import HackToolchain.Lowering.Location
import HackToolchain.Lowering.Program

/-! Lowering sessions. A session numbers the labels that it makes up, and never gives out a
number twice; the count also survives a command that is rejected. It is a word of 32 bits, and a
request that would take it beyond the greatest one fails. -/

namespace HackToolchain

/-- How many numbers the made-up labels of a command take up. -/
def Command.numbersTaken : Command → Nat
  | operator op => match Lowering.operation op with
    | .comparison _ => 1
    | _ => 0
  | call .. => 1
  | _ => 0

/-- The lines of a command whose labels carry a number. -/
def Command.fragment (number : Nat) : Command → Except Defect Lowering.Fragment
  | operator op => .ok (Lowering.operator op number)
  | access op segment index file => Lowering.access op segment index file
  | label name => .ok (Lowering.label name)
  | goto name => .ok (Lowering.goto name)
  | ifGoto name => .ok (Lowering.ifGoto name)
  | function name locals => .ok (Lowering.function name locals.toNat)
  | call name args => .ok (Lowering.call name args.toNat number)
  | ret => .ok Lowering.ret

/-- The block of a command whose labels carry a number. -/
def Command.block (number : Nat) (c : Command) : Except Defect Block :=
  (c.fragment number).map (Block.mk c.text)

/-- A computation in a session. Its state is the number of labels issued so far, which is also the
next number to be given out. It stays below `Session.limit`. -/
abbrev Session := ExceptT Defect (StateM Nat)

structure Options where
  /-- Start with the bootstrap code. -/
  bootstrap : Bool := false
  /-- End with the end-of-program loop. -/
  terminate : Bool := true

namespace Session

/-- The number of words of 32 bits. -/
def limit : Nat := 4294967296

/-- Makes something under the next number and takes up some numbers. If there is no room for these,
nothing is made and the count stays as it is. -/
def issue {α : Type} (taken : Nat) (make : Nat → Except Defect α) : Session α :=
  ExceptT.mk fun number =>
    if number + taken < limit then (make number, number + taken) else (.error .numbersSpent, number)

/-- Gives out the next number. -/
def fresh : Session Nat := issue 1 .ok

def command (c : Command) : Session Block := issue c.numbersTaken c.block

def bootstrap : Session Block :=
  issue 1 fun number => .ok ⟨"bootstrap", Lowering.bootstrap number⟩

def endProgram : Session Block :=
  issue 1 fun number => .ok ⟨"end program", Lowering.endLoop number⟩

/-- The blocks before those of the commands. -/
def first (options : Options) : Session (List Block) :=
  if options.bootstrap then List.singleton <$> bootstrap else pure []

/-- The blocks after those of the commands. -/
def last (options : Options) : Session (List Block) :=
  if options.terminate then List.singleton <$> endProgram else pure []

/-- The whole program of a list of commands. -/
def program (commands : List Command) (options : Options) : Session Program := do
  let front ← first options
  let blocks ← commands.mapM command
  let back ← last options
  return ⟨front ++ blocks ++ back⟩

@[simp] theorem run_issue {α : Type} (taken : Nat) (make : Nat → Except Defect α) (number : Nat) :
    (issue taken make).run.run number =
      if number + taken < limit then (make number, number + taken)
      else (.error .numbersSpent, number) := rfl

end Session

/-- The program of a list of commands in a session of its own. -/
def Program.ofCommands (commands : List Command) (options : Options) : Except Defect Program :=
  ((Session.program commands options).run.run 0).1

end HackToolchain
