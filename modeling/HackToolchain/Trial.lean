import HackToolchain.Assembly.Assemble
import HackToolchain.Command.Source
import HackToolchain.Lowering.Session
import HackToolchain.Machine.Cpu

/-! Trial runs of stack-machine programs: lowered to assembly, assembled, loaded into a fresh
machine and run until it halts or the step budget is spent. -/

namespace HackToolchain.Trial

/-- The file that the static variables of a trial belong to. -/
def fileName : String := "Test"

def stepLimit : Nat := 100000

/-- The register contents that a trial without bootstrap code starts from. -/
def registers : List (Nat × Nat) :=
  [(Platform.stackPointer, Platform.stackBase), (Platform.localBase, 300),
   (Platform.argumentBase, 400), (Platform.thisBase, 3000), (Platform.thatBase, 3010)]

inductive Failure where
  | source (e : SourceError)
  | lowering (defect : Defect)
  | assembly (e : SourceError) (program : Program)
  | stepsSpent (pc : Nat) (program : Program)

def Failure.message : Failure → String
  | source e => s!"VM parse failed: {e.message}"
  | lowering .numbersSpent => Defect.numbersSpent.message
  | lowering defect => s!"translation failed: {defect.message}"
  | assembly e program => s!"assembly failed: {e.message}\n{program.text}"
  | stepsSpent pc program =>
    s!"program did not halt within {stepLimit} steps (pc = {pc})\n{program.text}"

def commandsOf (source : String) : Except Failure (List Command) :=
  (Command.parse source fileName).mapError .source

/-- The program of some commands and a machine with its code. -/
def load (commands : List Command) (options : Options) : Except Failure (Program × Cpu) := do
  let program ← (Program.ofCommands commands options).mapError .lowering
  let image ← (assemble program.text).mapError (.assembly · program)
  return (program, .load image)

/-- Runs a loaded program to its halt. -/
def finish (program : Program) (cpu : Cpu) : Except Failure Cpu :=
  match cpu.run stepLimit with
  | (some _, cpu) => .ok cpu
  | (none, cpu) => .error (.stepsSpent cpu.pc program)

def setRegisters (cpu : Cpu) : Cpu :=
  registers.foldl (fun cpu (address, value) =>
    cpu.poke (BitVec.ofNat 16 address) (BitVec.ofNat 16 value)) cpu

/-- Runs commands on an empty stack, with the segment registers set. -/
def execute (commands : List Command) : Except Failure Cpu := do
  let (program, cpu) ← load commands {}
  finish program (setRegisters cpu)

/-- Runs a source on an empty stack, with the segment registers set. -/
def executeSource (source : String) : Except Failure Cpu := commandsOf source >>= execute

/-- Runs a source from its bootstrap code on, in a memory of zeros. -/
def executeBootstrapped (source : String) : Except Failure Cpu := do
  let (program, cpu) ← load (← commandsOf source) { bootstrap := true }
  finish program cpu

end HackToolchain.Trial
