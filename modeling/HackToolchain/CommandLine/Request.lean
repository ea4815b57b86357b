import HackToolchain.Lowering.Session

/-! Requests on the command line: an action, one input, an output that may be left out, and the
options of its lowering. A command line may also ask for help. -/

namespace HackToolchain.CommandLine

inductive Action where
  | translate | assemble | build
deriving DecidableEq

structure Request where
  action : Action
  input : String
  output? : Option String
  options : Options

/-- Why a command line makes no request: it asks for help, or it is not a proper one. -/
inductive Declined where
  | help | improper
deriving DecidableEq

/-- The arguments read so far. -/
structure Arguments where
  input? : Option String := none
  output? : Option String := none
  bootstrap : Bool := false
  noTerminate : Bool := false

/-- Whether an argument is an option by its form; a single dash is not. -/
def isOption (argument : String) : Bool :=
  argument.toList.head? = some '-' && argument != "-"

/-- The short option asks for help before the letters behind it are looked at. -/
def isHelp (argument : String) : Bool :=
  argument == "--help" || ['-', 'h'].isPrefixOf argument.toList

namespace Arguments

/-- An input can be given once and is not empty. -/
def addInput (arguments : Arguments) (value : String) : Except Declined Arguments :=
  if arguments.input?.isSome || value.isEmpty then .error .improper
  else .ok { arguments with input? := some value }

def addOutput (arguments : Arguments) (value : String) : Except Declined Arguments :=
  if arguments.output?.isSome || value.isEmpty then .error .improper
  else .ok { arguments with output? := some value }

/-- A flag stands alone and can be given once. -/
def addFlag (arguments : Arguments) : String → Except Declined Arguments
  | "--bootstrap" =>
    if arguments.bootstrap then .error .improper else .ok { arguments with bootstrap := true }
  | "--no-terminate" =>
    if arguments.noTerminate then .error .improper
    else .ok { arguments with noTerminate := true }
  | _ => .error .improper

/-- The value that is attached to the output option, in any of its spellings. -/
def attachedOutput? (argument : String) : Option String :=
  match argument.toList with
  | '-' :: 'o' :: '=' :: value => some (String.ofList value)
  | '-' :: 'o' :: value => some (String.ofList value)
  | '-' :: '-' :: 'o' :: 'u' :: 't' :: 'p' :: 'u' :: 't' :: '=' :: value =>
    some (String.ofList value)
  | _ => none

/-- Takes one argument. -/
def add (flags : Bool) (arguments : Arguments) (argument : String) : Except Declined Arguments :=
  if ! isOption argument then arguments.addInput argument
  else if isHelp argument then .error .help
  else match attachedOutput? argument with
    | some value => arguments.addOutput value
    | none => if flags then arguments.addFlag argument else .error .improper

/-- Reads arguments one after the other. After two dashes all are inputs. -/
def read (flags : Bool) (arguments : Arguments) : List String → Except Declined Arguments
  | [] => .ok arguments
  | "--" :: inputs => inputs.foldlM addInput arguments
  | "-o" :: value :: rest | "--output" :: value :: rest =>
    if isOption value then .error .improper
    else do read flags (← arguments.addOutput value) rest
  | argument :: rest => do read flags (← arguments.add flags argument) rest

/-- The request that arguments make for an action. -/
def request (arguments : Arguments) (action : Action) : Except Declined Request :=
  match arguments.input? with
  | some input =>
    .ok ⟨action, input, arguments.output?, ⟨arguments.bootstrap, ! arguments.noTerminate⟩⟩
  | none => .error .improper

end Arguments

def Action.ofText? : String → Option Action
  | "translate" => some .translate
  | "assemble" => some .assemble
  | "build" => some .build
  | _ => none

/-- What the names behind the word for help ask for: the whole usage, or that of one command. -/
def declinedHelp : List String → Declined
  | [] => .help
  | [name] => if name = "help" ∨ (Action.ofText? name).isSome then .help else .improper
  | _ => .improper

/-- The request that a command line makes. Assembling takes no flags. -/
def Request.ofArguments : List String → Except Declined Request
  | [] => .error .improper
  | name :: rest =>
    match Action.ofText? name with
    | some action => do (← Arguments.read (action != .assemble) {} rest).request action
    | none =>
      if name = "help" then .error (declinedHelp rest)
      else .error (if isHelp name then .help else .improper)

end HackToolchain.CommandLine
