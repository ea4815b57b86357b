import HackToolchain.Proofs.Lowering.Acceptance

/-! The symbols that translated code refers to. They are registers, labels that lowering makes up
for the command itself, and names that the command brings. -/

namespace HackToolchain

theorem Lines.references_append (front back : List Line) :
    Lines.references (front ++ back) = Lines.references front ++ Lines.references back := by
  simp [Lines.references]

namespace Lowering

/-- The registers that lowering knows by name. -/
def registers : List String :=
  "SP" :: Platform.savedRegisters ++ [Platform.addressScratch, Platform.returnScratch]

theorem registers_predefined : ∀ register ∈ registers,
    predefinedSymbols.lookup register ≠ none := by
  decide

/-- The symbol through which a location is reached. -/
def Location.symbol? : Location → Option String
  | named name => some name
  | indirect base _ => some base
  | constant _ | temp _ => none

theorem Location.references_push {location : Location} {name : String}
    (inside : name ∈ Lines.references location.push) :
    name ∈ registers ∨ location.symbol? = some name := by
  cases location with
  | constant value =>
    have all : ["SP", "SP"] ⊆ registers := by decide
    exact .inl (all inside)
  | named symbol =>
    have all : ["SP", "SP"] ⊆ registers := by decide
    rcases List.mem_cons.mp (show name ∈ symbol :: ["SP", "SP"] from inside) with rfl | rest
    · exact .inr rfl
    · exact .inl (all rest)
  | indirect base offset =>
    have all : ["R13", "R13", "SP", "SP"] ⊆ registers := by decide
    rcases List.mem_cons.mp (show name ∈ base :: ["R13", "R13", "SP", "SP"] from inside) with
      rfl | rest
    · exact .inr rfl
    · exact .inl (all rest)
  | temp offset =>
    have all : ["R13", "R13", "SP", "SP"] ⊆ registers := by decide
    exact .inl (all inside)

theorem Location.references_pop {location : Location} {body : Fragment} {name : String}
    (popped : location.pop = .ok body) (inside : name ∈ Lines.references body) :
    name ∈ registers ∨ location.symbol? = some name := by
  cases location with
  | constant value => cases popped
  | named symbol =>
    cases popped
    rcases List.mem_pair.mp (show name ∈ ["SP", symbol] from inside) with rfl | rfl
    · exact .inl (by decide)
    · exact .inr rfl
  | indirect base offset =>
    cases popped
    have all : ["R13", "SP", "R13"] ⊆ registers := by decide
    rcases List.mem_cons.mp (show name ∈ base :: ["R13", "SP", "R13"] from inside) with rfl | rest
    · exact .inr rfl
    · exact .inl (all rest)
  | temp offset =>
    cases popped
    have all : ["R13", "SP", "R13"] ⊆ registers := by decide
    exact .inl (all inside)

/-- A location is reached through a register or through the symbol of a static variable. -/
theorem Location.symbol_of_find {segment : Segment} {index : Int32} {file name : String}
    {location : Location} (found : find segment index file = .ok location)
    (reached : location.symbol? = some name) : name ∈ registers ∨
      segment = .staticVar ∧ name = staticSymbol file index.toInt.toNat := by
  obtain ⟨-, found⟩ := find_eq_ok.mp found
  cases segment with
  | argument | localVar | this | that =>
    cases found
    cases reached
    exact .inl (by decide)
  | pointer =>
    simp only [ofIndex] at found
    split at found
    · cases found
      cases reached
      exact .inl (by decide)
    · cases found
      cases reached
      exact .inl (by decide)
    · cases found
  | temp =>
    simp only [ofIndex] at found
    split at found
    · cases found
      cases reached
    · cases found
  | constant =>
    cases found
    cases reached
  | staticVar =>
    cases found
    cases reached
    exact .inr ⟨rfl, rfl⟩

theorem references_access {op : StackOp} {segment : Segment} {index : Int32} {file name : String}
    {body : Fragment} (fragment : access op segment index file = .ok body)
    (inside : name ∈ Lines.references body) : name ∈ registers ∨
      segment = .staticVar ∧ name = staticSymbol file index.toInt.toNat := by
  obtain ⟨location, found, transfer⟩ := access_eq_ok.mp fragment
  have direct : name ∈ registers ∨ location.symbol? = some name := by
    cases op with
    | push =>
      rw [transfer] at inside
      exact Location.references_push inside
    | pop => exact Location.references_pop transfer inside
  rcases direct with register | reached
  · exact .inl register
  · exact Location.symbol_of_find found reached

theorem references_comparison (c : Comparison) (number : Nat) :
    Lines.references (c.fragment number) =
      ["SP", "SP", c.branchLabel number, "SP", "SP", c.endLabel number, "SP", "SP"] := rfl

theorem references_setup (args : Nat) : ∀ name ∈ Lines.references (setup args),
    name ∈ registers := by
  have closed : Lines.references (setup args) = Lines.references (setup 0) := rfl
  rw [closed]
  decide

theorem references_function (name : String) (locals : Nat) :
    ∀ other ∈ Lines.references (function name locals), other ∈ registers := by
  intro other inside
  have line := Lines.mem_references.mp inside
  rw [function, List.mem_cons] at line
  rcases line with label | line
  · cases label
  · obtain ⟨lines, repeated, line⟩ := List.mem_flatten.mp line
    obtain ⟨-, rfl⟩ := List.mem_replicate.mp repeated
    have all : ∀ other ∈ Lines.references pushZero, other ∈ registers := by decide
    exact all other (Lines.mem_references.mpr line)

theorem references_call {callee name : String} {args number : Nat}
    (inside : name ∈ Lines.references (call callee args number)) :
    name ∈ registers ∨ name = returnLabel callee number ∨ name = callee := by
  rw [call_eq, Lines.references_append] at inside
  rcases List.mem_append.mp inside with front | last
  · rcases List.mem_cons.mp
      (show name ∈ returnLabel callee number :: Lines.references (setup args) from front) with
      rfl | register
    · exact .inr (.inl rfl)
    · exact .inl (references_setup args name register)
  · exact .inr (.inr (List.mem_singleton.mp (show name ∈ [callee] from last)))

theorem references_bootstrap {name : String} {number : Nat}
    (inside : name ∈ Lines.references (bootstrap number)) : name ∈ registers ∨
      name = returnLabel Platform.entryFunction number ∨ name = Platform.entryFunction := by
  rw [bootstrap, Lines.references_append] at inside
  rcases List.mem_append.mp inside with front | call
  · obtain rfl := List.mem_singleton.mp (show name ∈ ["SP"] from front)
    exact .inl (by decide)
  · exact references_call call

end Lowering

namespace Command

/-- The symbols that a command brings: the label that it declares or jumps to, or the symbol of its
static variable. -/
def symbols : Command → List String
  | label name => [Text.upper name]
  | goto name | ifGoto name | function name _ | call name _ => [name]
  | access _ .staticVar index file => [Lowering.staticSymbol file index.toInt.toNat]
  | _ => []

variable {c : Command} {number : Nat} {name : String} {body : Lowering.Fragment}

theorem references_fragment (h : c.fragment number = .ok body)
    (inside : name ∈ Lines.references body) :
    name ∈ Lowering.registers ∨ name ∈ c.labels number ∨ name ∈ c.symbols := by
  cases c with
  | operator op =>
    cases h
    have compared : ∀ c : Lowering.Comparison, name ∈ Lines.references (c.fragment number) →
        name ∈ Lowering.registers ∨ name ∈ [c.branchLabel number, c.endLabel number] := by
      intro c referred
      have register : "SP" ∈ Lowering.registers := by decide
      rw [Lowering.references_comparison] at referred
      simp only [List.mem_cons, List.not_mem_nil, or_false] at referred ⊢
      grind
    have plain : ∀ lines, (∀ other ∈ Lines.references lines, other = "SP") →
        name ∈ Lines.references lines → name ∈ Lowering.registers := by
      intro lines all referred
      rw [all name referred]
      decide
    cases op with
    | eq | gt | lt =>
      rcases compared _ inside with register | label
      · exact .inl register
      · exact .inr (.inl label)
    | add | sub | and | or | neg | not =>
      simp only [Lowering.operator, Lowering.operation] at inside
      exact .inl (plain _ (by decide) inside)
  | access op segment index file =>
    rcases Lowering.references_access h inside with register | ⟨rfl, rfl⟩
    · exact .inl register
    · exact .inr (.inr (List.mem_singleton.mpr rfl))
  | label other =>
    cases h
    cases inside
  | goto target =>
    cases h
    exact .inr (.inr inside)
  | ifGoto target =>
    cases h
    rcases List.mem_pair.mp (show name ∈ ["SP", target] from inside) with rfl | rfl
    · exact .inl (by decide)
    · exact .inr (.inr (List.mem_singleton.mpr rfl))
  | function other locals =>
    cases h
    exact .inl (Lowering.references_function other _ name inside)
  | call callee args =>
    cases h
    rcases Lowering.references_call inside with register | rfl | rfl
    · exact .inl register
    · exact .inr (.inl (List.mem_singleton.mpr rfl))
    · exact .inr (.inr (List.mem_singleton.mpr rfl))
  | ret =>
    cases h
    have all : ∀ other ∈ Lines.references Lowering.ret, other ∈ Lowering.registers := by decide
    exact .inl (all name inside)

end Command

/-- The code of a program also refers to the entry function if it starts with the bootstrap code. -/
theorem Program.references_body {commands : List Command} {options : Options} {program : Program}
    {name : String} (translated : ofCommands commands options = .ok program)
    (inside : name ∈ Lines.references program.body) :
    name ∈ Lowering.registers ∨ name ∈ labels commands options ∨
      (options.bootstrap ∧ name = Platform.entryFunction) ∨ ∃ c ∈ commands, name ∈ c.symbols := by
  obtain ⟨block, among, line⟩ := List.mem_flatMap.mp (Lines.mem_references.mp inside)
  obtain ⟨blocks, made, split⟩ := blocks_of_session translated
  have referred := Lines.mem_references.mpr line
  rw [split, List.mem_append, List.mem_append] at among
  rw [labels, List.mem_append, List.mem_append]
  rcases among with (first | middle) | last
  · unfold Session.firstBlocks at first
    split at first
    · next boots =>
      obtain rfl := List.mem_singleton.mp first
      rcases Lowering.references_bootstrap referred with register | rfl | rfl
      · exact .inl register
      · exact .inr (.inl (.inl (.inl (by simp [boots]))))
      · exact .inr (.inr (.inl ⟨boots, rfl⟩))
    · cases first
  · obtain ⟨⟨number, c⟩, entry, made⟩ := exists_of_mem_mapM made middle
    have among : c ∈ commands := Command.mem_of_mem_numberFrom entry
    rcases Command.references_fragment (Command.numberedBlock_eq_ok made).1 referred with
      register | label | symbol
    · exact .inl register
    · exact .inr (.inl (.inl (.inr (List.mem_flatMap.mpr ⟨(number, c), entry, label⟩))))
    · exact .inr (.inr (.inr ⟨c, among, symbol⟩))
  · unfold Session.lastBlocks at last
    split at last
    · next ends =>
      obtain rfl := List.mem_singleton.mp last
      exact .inr (.inl (.inr (by rw [if_pos ends]; exact referred)))
    · cases last

end HackToolchain
