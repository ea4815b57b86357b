import HackToolchain.Assembly.Assemble
import HackToolchain.Command.Source
import HackToolchain.Lowering.Session

/-! The events that the tools report about their work: what was read, lowered, allocated and
assembled, up to the first failure. They are computed apart from the work itself. -/

namespace HackToolchain

inductive Event where
  | parsed (file : String) (commands : Nat)
  | noCommands
  | noEntryFunction
  | loweredCommand (text : String) (lines : Nat)
  | loweredProgram (commands lines labels : Nat)
  | allocated (symbol : String) (address : Nat)
  | assembled (words variableCount : Nat)

inductive Level where
  | warning | debug | trace

namespace Event

def level : Event → Level
  | noCommands | noEntryFunction => .warning
  | parsed .. | loweredProgram .. | assembled .. => .debug
  | loweredCommand .. | allocated .. => .trace

def message : Event → String
  | parsed file commands => s!"parsed VM source file={Text.quoted file} commands={commands}"
  | noCommands => "translating an empty command stream"
  | noEntryFunction =>
    s!"bootstrap requested but no '{Platform.entryFunction}' function is defined"
  | loweredCommand text lines => s!"translated command command={text} lines={lines}"
  | loweredProgram commands lines labels =>
    s!"translated VM program commands={commands} lines={lines} labels={labels}"
  | allocated symbol address =>
    s!"allocated variable symbol={Text.quoted symbol} address={address}"
  | assembled words count => s!"assembled program words={words} variables={count}"

end Event

namespace Trace

def ofParse (source file : String) : List Event :=
  match Command.parse source file with
  | .ok commands => [.parsed file commands.length]
  | .error _ => []

def isEntry : Command → Bool
  | .function name _ => name == Platform.entryFunction
  | _ => false

/-- The events of lowering commands one by one, up to the first that fails. -/
def ofCommands (issued : Nat) : List Command → List Event
  | [] => []
  | c :: rest => match (Session.command c).run.run issued with
    | (.ok block, issued) =>
      .loweredCommand c.text block.lines.length :: ofCommands issued rest
    | (.error _, _) => []

/-- The events of lowering a program after `issued` labels. -/
def ofLowering (commands : List Command) (options : Options) (issued : Nat) : List Event :=
  let warnings := (if commands.isEmpty then [Event.noCommands] else []) ++
    (if options.bootstrap && ! commands.any isEntry then [.noEntryFunction] else [])
  let lowered := match (Session.first options).run.run issued with
    | (.ok _, issued) => ofCommands issued commands
    | (.error _, _) => []
  let finished := match (Session.program commands options).run.run issued with
    | (.ok program, issued) =>
      [Event.loweredProgram commands.length program.lines.length issued]
    | (.error _, _) => []
  warnings ++ lowered ++ finished

/-- The event of resolving a symbol, if that makes a variable. -/
def ofSymbol (table : SymbolTable) (name : String) : Option Event :=
  match table.get? name with
  | some _ => none
  | none => some (.allocated name table.nextVariable)

def ofInstruction (table : SymbolTable) : Instruction → Option Event
  | .address (.symbol name) => ofSymbol table name
  | _ => none

/-- The events of encoding, after those in `seen`. -/
def ofCode (seen : Array Event) (table : SymbolTable) (words : Nat) :
    List Instruction → Array Event
  | [] => seen.push (.assembled words table.variableCount)
  | i :: rest =>
    let seen := (ofInstruction table i).elim seen seen.push
    match table.encode i with
    | .ok (_, table) => ofCode seen table (words + 1) rest
    | .error _ => seen

def ofAssembly (source : String) : List Event :=
  match Layout.ofSource source with
  | .ok layout => (ofCode #[] layout.symbols 0 (layout.code.toList.map (·.2))).toList
  | .error _ => []

end Trace

end HackToolchain
