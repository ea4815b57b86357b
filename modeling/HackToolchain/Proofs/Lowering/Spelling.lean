import HackToolchain.Proofs.Assembly.Capacity
import HackToolchain.Proofs.Lowering.Blocks

/-! The lines of a translated program are in the language of the assembler: their names are symbols
when those of the commands are, and their mnemonics are known. -/

namespace HackToolchain

/-! ### Symbols -/

theorem isSymbol_cons {c : Char} {rest : List Char} :
    isSymbol (c :: rest) ↔ c.isDigit = false ∧ ∀ d ∈ c :: rest, isSymbolChar d := by
  rw [isSymbol, Bool.and_eq_true, Bool.not_eq_true', List.all_eq_true]

theorem isSymbol_append {name rest : List Char} (h : isSymbol name)
    (hRest : ∀ c ∈ rest, isSymbolChar c) : isSymbol (name ++ rest) := by
  obtain ⟨c, front, rfl⟩ := List.exists_cons_of_ne_nil (isSymbol_ne_nil h)
  rw [List.cons_append, isSymbol_cons, ← List.cons_append]
  refine ⟨isSymbol_head h, fun d hd => ?_⟩
  rcases List.mem_append.mp hd with inside | inside
  · exact isSymbol_all h d inside
  · exact hRest d inside

theorem isSymbolChar_toString (n : Nat) : ∀ c ∈ (toString n).toList, isSymbolChar c := by
  intro c hc
  rw [Nat.toString_eq_repr, Nat.toList_repr] at hc
  exact isSymbolChar_of_isDigit (Nat.isDigit_of_mem_toDigits (by decide) (by decide) hc)

/-- A symbol with a mark and a number after it. -/
theorem isSymbol_numbered {stem mark : String} (n : Nat) (h : isSymbol stem.toList)
    (hMark : mark.toList.all isSymbolChar) :
    isSymbol (stem ++ mark ++ toString n).toList := by
  rw [String.toList_append, String.toList_append]
  exact isSymbol_append (isSymbol_append h (List.all_eq_true.mp hMark)) (isSymbolChar_toString n)

/-- Upper case keeps the characters of symbols in ASCII. -/
theorem toUpper_symbolChar {c : Char} (h : isSymbolChar c) :
    isSymbolChar c.toUpper ∧ c.toUpper.isDigit = c.isDigit := by
  have all : ∀ n < 123, isSymbolChar (Char.ofNat n) →
      isSymbolChar (Char.ofNat n).toUpper ∧
        (Char.ofNat n).toUpper.isDigit = (Char.ofNat n).isDigit := by
    decide
  have range := isSymbolChar_range h
  have same : Char.ofNat c.toNat = c := by simp
  rw [← same] at h ⊢
  exact all c.toNat (by omega) h

theorem isSymbol_upper {name : String} (h : isSymbol name.toList) :
    isSymbol (Text.upper name).toList := by
  have ascii : ∀ c ∈ name.toList, Text.upperChar c = [c.toUpper] := by
    intro c hc
    have := isSymbolChar_range (isSymbol_all h c hc)
    rw [Text.upperChar, if_pos (by omega)]
  have same : (Text.upper name).toList = name.toList.map Char.toUpper := by
    rw [Text.upper, String.toList_ofList, List.flatMap_congr ascii, ← List.map_eq_flatMap]
  obtain ⟨c, rest, hName⟩ := List.exists_cons_of_ne_nil (isSymbol_ne_nil h)
  rw [hName] at h
  rw [same, hName, List.map_cons, isSymbol_cons, ← List.map_cons, List.forall_mem_map]
  refine ⟨?_, fun d hd => (toUpper_symbolChar (isSymbol_all h d hd)).1⟩
  rw [(toUpper_symbolChar (isSymbol_all h c (by simp))).2, isSymbol_head h]

/-! ### Fragments -/

namespace Command

/-- The names that a command brings into its lines: its own, or the file of a static variable. -/
def names : Command → List String
  | label name | goto name | ifGoto name | function name _ | call name _ => [name]
  | access _ segment _ file => if segment = .staticVar then [file] else []
  | _ => []

/-- The names of a command are symbols. -/
def Named (c : Command) : Prop := ∀ name ∈ c.names, isSymbol name.toList

instance : DecidablePred Named := fun c =>
  inferInstanceAs (Decidable (∀ name ∈ c.names, isSymbol name.toList))

end Command

namespace Lowering

theorem wellSpelled_append {front back : Fragment} :
    (∀ line ∈ front ++ back, line.WellSpelled) ↔
      (∀ line ∈ front, line.WellSpelled) ∧ ∀ line ∈ back, line.WellSpelled :=
  List.forall_mem_append

theorem wellSpelled_literal (value : Nat) : (literal value).WellSpelled := trivial

theorem wellSpelled_pushData : ∀ line ∈ pushData, line.WellSpelled := by decide

theorem wellSpelled_popData : ∀ line ∈ popData, line.WellSpelled := by decide

theorem wellSpelled_ret : ∀ line ∈ ret, line.WellSpelled := by decide

theorem wellSpelled_pushNamed {name : String} (h : isSymbol name.toList) :
    ∀ line ∈ pushNamed name, line.WellSpelled := by
  rw [pushNamed, wellSpelled_append, List.forall_mem_cons]
  exact ⟨⟨h, by decide⟩, wellSpelled_pushData⟩

theorem wellSpelled_pushZeros (locals : Nat) :
    ∀ line ∈ (List.replicate locals pushZero).flatten, line.WellSpelled := by
  intro line hLine
  obtain ⟨lines, repeated, inside⟩ := List.mem_flatten.mp hLine
  obtain ⟨-, rfl⟩ := List.mem_replicate.mp repeated
  have all : ∀ line ∈ pushZero, line.WellSpelled := by decide
  exact all line inside

theorem wellSpelled_function {name : String} (locals : Nat) (h : isSymbol name.toList) :
    ∀ line ∈ function name locals, line.WellSpelled := by
  rw [function, List.forall_mem_cons]
  exact ⟨h, wellSpelled_pushZeros locals⟩

theorem isSymbol_returnLabel {name : String} (number : Nat) (h : isSymbol name.toList) :
    isSymbol (returnLabel name number).toList :=
  isSymbol_numbered number h (by decide)

/-- The lines of a call between the first one and the jump. -/
def setup (args : Nat) : Fragment :=
  [assign "D" "A"] ++ pushData ++ Platform.savedRegisters.flatMap pushNamed ++
    [symbol "SP", assign "D" "M", literal (args + Platform.frameSize), assign "D" "D-A"] ++
    store "ARG" ++ [symbol "SP", assign "D" "M"] ++ store "LCL"

theorem call_eq (name : String) (args number : Nat) : call name args number =
    (symbol (returnLabel name number) :: setup args) ++
      [symbol name, jump "0" "JMP", .label (returnLabel name number)] := rfl

theorem wellSpelled_setup (args : Nat) : ∀ line ∈ setup args, line.WellSpelled := by
  simp only [setup, wellSpelled_append, List.forall_mem_cons]
  refine ⟨⟨⟨⟨⟨⟨?_, wellSpelled_pushData⟩, ?_⟩, ?_, ?_, wellSpelled_literal _, ?_⟩, ?_⟩, ?_⟩, ?_⟩
  all_goals decide

theorem wellSpelled_call {name : String} (args number : Nat) (h : isSymbol name.toList) :
    ∀ line ∈ call name args number, line.WellSpelled := by
  have back := isSymbol_returnLabel number h
  simp only [call_eq, wellSpelled_append, List.forall_mem_cons]
  exact ⟨⟨back, wellSpelled_setup args⟩, h, by decide, back, by simp⟩

theorem wellSpelled_bootstrap (number : Nat) : ∀ line ∈ bootstrap number, line.WellSpelled := by
  rw [bootstrap, wellSpelled_append]
  exact ⟨by decide, wellSpelled_call 0 number (by decide)⟩

theorem isSymbol_endLabel (number : Nat) : isSymbol (endLabel number).toList :=
  isSymbol_numbered number (by decide) (by decide)

theorem wellSpelled_endLoop (number : Nat) : ∀ line ∈ endLoop number, line.WellSpelled := by
  have back := isSymbol_endLabel number
  simp only [endLoop, List.forall_mem_cons]
  exact ⟨back, back, by decide, by simp⟩

theorem Comparison.wellSpelled {c : Comparison} (number : Nat)
    (hBranch : isSymbol c.branchStem.toList) (hEnd : isSymbol c.endStem.toList)
    (hJump : Mnemonic.Known "" "D" c.condition) :
    ∀ line ∈ c.fragment number, line.WellSpelled := by
  have branch : isSymbol (c.branchLabel number).toList :=
    isSymbol_numbered number hBranch (by decide)
  have last : isSymbol (c.endLabel number).toList := isSymbol_numbered number hEnd (by decide)
  have truth : ∀ b, (assign "D" (truth b)).WellSpelled := by decide
  simp only [fragment, wellSpelled_append, List.forall_mem_cons]
  refine ⟨⟨⟨⟨⟨⟨wellSpelled_popData, ?_⟩, branch, hJump, truth _, ?_⟩, wellSpelled_pushData⟩,
    last, ?_, branch, truth _, ?_⟩, wellSpelled_pushData⟩, last, ?_⟩
  · decide
  · simp
  · decide
  · simp
  · simp

theorem wellSpelled_operator (op : Operator) (number : Nat) :
    ∀ line ∈ operator op number, line.WellSpelled := by
  cases op with
  | eq => exact Comparison.wellSpelled (c := .equal) number (by decide) (by decide) (by decide)
  | gt => exact Comparison.wellSpelled (c := .greater) number (by decide) (by decide) (by decide)
  | lt => exact Comparison.wellSpelled (c := .less) number (by decide) (by decide) (by decide)
  | add | sub | and | or | neg | not =>
    simp only [operator, operation]
    decide

/-- The names of a location are symbols. -/
def Location.Named : Location → Prop
  | named name => isSymbol name.toList
  | indirect base _ => isSymbol base.toList
  | _ => True

theorem isSymbol_staticSymbol {file : String} (index : Nat) (h : isSymbol file.toList) :
    isSymbol (staticSymbol file index).toList :=
  isSymbol_numbered index h (by decide)

theorem Location.find_eq_ok {segment : Segment} {index : Int32} {file : String}
    {location : Location} : find segment index file = .ok location ↔
      0 ≤ index.toInt ∧ ofIndex segment index file = .ok location := by
  rw [find]
  split
  · next negative =>
    simp only [reduceCtorEq, false_iff, not_and]
    omega
  · next positive =>
    have : 0 ≤ index.toInt := by omega
    simp [this]

theorem Location.named_of_find {segment : Segment} {index : Int32} {file : String}
    {location : Location} (h : find segment index file = .ok location)
    (named : segment = .staticVar → isSymbol file.toList) : location.Named := by
  obtain ⟨-, h⟩ := find_eq_ok.mp h
  cases segment with
  | argument | localVar | this | that =>
    cases h
    show isSymbol _
    decide
  | pointer =>
    simp only [ofIndex] at h
    split at h
    · cases h
      show isSymbol _
      decide
    · cases h
      show isSymbol _
      decide
    · cases h
  | temp =>
    simp only [ofIndex] at h
    split at h
    · cases h
      trivial
    · cases h
  | constant =>
    cases h
    trivial
  | staticVar =>
    cases h
    exact isSymbol_staticSymbol _ (named rfl)

theorem Location.wellSpelled_push {location : Location} (h : location.Named) :
    ∀ line ∈ location.push, line.WellSpelled := by
  have kept : ∀ line ∈ pushKept, line.WellSpelled := by decide
  cases location with
  | constant value =>
    rw [push, wellSpelled_append, List.forall_mem_cons]
    exact ⟨⟨wellSpelled_literal value, by decide⟩, wellSpelled_pushData⟩
  | named name => exact wellSpelled_pushNamed h
  | indirect base offset =>
    simp only [push, wellSpelled_append, keepIndirect, keepAddress, List.forall_mem_cons]
    exact ⟨⟨wellSpelled_literal offset, by decide, h, by decide, by decide, by decide, by simp⟩,
      kept⟩
  | temp offset =>
    simp only [push, wellSpelled_append, keepTemp, keepAddress, List.forall_mem_cons]
    exact ⟨⟨wellSpelled_literal _, by decide, wellSpelled_literal offset, by decide, by decide,
      by decide, by simp⟩, kept⟩

theorem Location.wellSpelled_pop {location : Location} {body : Fragment} (h : location.Named)
    (popped : location.pop = .ok body) : ∀ line ∈ body, line.WellSpelled := by
  have kept : ∀ line ∈ popKept, line.WellSpelled := by decide
  cases location with
  | constant value => cases popped
  | named name =>
    cases popped
    rw [wellSpelled_append, List.forall_mem_cons]
    exact ⟨wellSpelled_popData, h, by decide⟩
  | indirect base offset =>
    cases popped
    simp only [wellSpelled_append, keepIndirect, keepAddress, List.forall_mem_cons]
    exact ⟨⟨wellSpelled_literal offset, by decide, h, by decide, by decide, by decide, by simp⟩,
      kept⟩
  | temp offset =>
    cases popped
    simp only [wellSpelled_append, keepTemp, keepAddress, List.forall_mem_cons]
    exact ⟨⟨wellSpelled_literal _, by decide, wellSpelled_literal offset, by decide, by decide,
      by decide, by simp⟩, kept⟩

end Lowering

theorem Lowering.access_eq_ok {op : StackOp} {segment : Segment} {index : Int32} {file : String}
    {body : Fragment} : access op segment index file = .ok body ↔
      ∃ location, Location.find segment index file = .ok location ∧
        match op with
        | .push => body = location.push
        | .pop => location.pop = .ok body := by
  rw [access, Except.bind_eq_ok]
  cases op <;> simp [pure, Except.pure, eq_comm]

namespace Lowering

/-- The end of an access to a static variable, behind the line that names its cell. -/
def move : StackOp → Fragment
  | .push => assign "D" "M" :: pushData
  | .pop => [assign "M" "D"]

theorem wellSpelled_move (op : StackOp) : ∀ line ∈ move op, line.WellSpelled := by
  cases op <;> decide

/-- What stands before the line that names the cell. -/
def fetch : StackOp → Fragment
  | .push => []
  | .pop => popData

theorem wellSpelled_fetch (op : StackOp) : ∀ line ∈ fetch op, line.WellSpelled := by
  cases op <;> decide

theorem staticAccess_eq_ok {op : StackOp} {index : Int32} {file : String} {body : Fragment} :
    access op .staticVar index file = .ok body ↔ 0 ≤ index.toInt ∧
      body = fetch op ++ symbol (staticSymbol file index.toInt.toNat) :: move op := by
  rw [access_eq_ok]
  constructor
  · rintro ⟨location, found, transfer⟩
    obtain ⟨positive, found⟩ := Location.find_eq_ok.mp found
    cases found
    cases op with
    | push => exact ⟨positive, transfer⟩
    | pop =>
      cases transfer
      exact ⟨positive, rfl⟩
  · rintro ⟨positive, rfl⟩
    refine ⟨_, Location.find_eq_ok.mpr ⟨positive, rfl⟩, ?_⟩
    cases op <;> rfl

end Lowering

theorem Command.wellSpelled_fragment {c : Command} {number : Nat} {body : Lowering.Fragment}
    (named : c.Named) (h : c.fragment number = .ok body) : ∀ line ∈ body, line.WellSpelled := by
  cases c with
  | operator op =>
    cases h
    exact Lowering.wellSpelled_operator op number
  | access op segment index file =>
    obtain ⟨location, found, h⟩ := Lowering.access_eq_ok.mp h
    have namedLocation := Lowering.Location.named_of_find found fun same =>
      named file (by simp [names, same])
    cases op with
    | push => exact h ▸ Lowering.Location.wellSpelled_push namedLocation
    | pop => exact Lowering.Location.wellSpelled_pop namedLocation h
  | label name =>
    cases h
    simp only [Lowering.label, List.forall_mem_cons]
    exact ⟨isSymbol_upper (named name (by simp [names])), by simp⟩
  | goto name =>
    cases h
    simp only [Lowering.goto, List.forall_mem_cons]
    exact ⟨named name (by simp [names]), by decide, by simp⟩
  | ifGoto name =>
    cases h
    simp only [Lowering.ifGoto, Lowering.wellSpelled_append, List.forall_mem_cons]
    exact ⟨Lowering.wellSpelled_popData, named name (by simp [names]), by decide, by simp⟩
  | function name locals =>
    cases h
    exact Lowering.wellSpelled_function locals.toNat (named name (by simp [names]))
  | call name args =>
    cases h
    exact Lowering.wellSpelled_call args.toNat number (named name (by simp [names]))
  | ret =>
    cases h
    exact Lowering.wellSpelled_ret

end HackToolchain
