import HackToolchain.Command.Source
import HackToolchain.Proofs.Assembly.Definition
import Mathlib.Order.Bounds.Basic

/-! The language of command sources, said of the words of their lines. A source is read if and only
if every line that has words spells a command, and otherwise the first other line is reported; so a
source can be read in two parts. -/

namespace HackToolchain

/-! ### Numerals -/

namespace Text

/-- One or more decimal digits that spell a number. -/
def Spelled (digits : List Char) (value : Nat) : Prop :=
  digits ≠ [] ∧ (∀ c ∈ digits, c.isDigit) ∧ value = Nat.ofDigitChars 10 digits 0

/-- Digits with an optional sign. -/
inductive SignedNumeral : List Char → Int → Prop
  | plain {digits : List Char} {value : Nat} (spelled : Spelled digits value) :
      SignedNumeral digits value
  | plus {digits : List Char} {value : Nat} (spelled : Spelled digits value) :
      SignedNumeral ('+' :: digits) value
  | minus {digits : List Char} {value : Nat} (spelled : Spelled digits value) :
      SignedNumeral ('-' :: digits) (-value)

/-- Digits with an optional plus sign. -/
inductive UnsignedNumeral : List Char → Nat → Prop
  | plain {digits : List Char} {value : Nat} (spelled : Spelled digits value) :
      UnsignedNumeral digits value
  | plus {digits : List Char} {value : Nat} (spelled : Spelled digits value) :
      UnsignedNumeral ('+' :: digits) value

variable {digits text : List Char} {value : Nat}

theorem natural?_eq_some : natural? digits = some value ↔ Spelled digits value := by
  rw [natural?, Spelled]
  split
  · next h =>
    have all : ∀ c ∈ digits, c.isDigit := List.all_eq_true.mp h.2
    simp only [Option.some.injEq, ne_eq, h.1, not_false_eq_true, true_and]
    exact ⟨fun same => ⟨all, same.symm⟩, fun same => same.2.symm⟩
  · next h =>
    simp only [reduceCtorEq, false_iff]
    rintro ⟨some, all, -⟩
    exact h ⟨some, List.all_eq_true.mpr all⟩

theorem Spelled.head (h : Spelled digits value) : ∃ c rest, digits = c :: rest ∧ c.isDigit := by
  obtain ⟨some, all, -⟩ := h
  obtain ⟨c, rest, rfl⟩ := List.exists_cons_of_ne_nil some
  exact ⟨c, rest, rfl, all c (List.mem_cons_self ..)⟩

theorem Spelled.no_sign (h : Spelled digits value) {sign : Char} (mark : sign.isDigit = false)
    (rest : List Char) : digits ≠ sign :: rest := by
  rintro rfl
  obtain ⟨c, tail, same, digit⟩ := h.head
  cases same
  exact absurd digit (by simp [mark])

theorem integer?_eq_some {value : Int} :
    integer? text = some value ↔ SignedNumeral text value := by
  constructor
  · intro h
    unfold integer? at h
    split at h
    · obtain ⟨n, found, rfl⟩ := Option.map_eq_some_iff.mp h
      exact .plus (natural?_eq_some.mp found)
    · obtain ⟨n, found, rfl⟩ := Option.map_eq_some_iff.mp h
      exact .minus (natural?_eq_some.mp found)
    · obtain ⟨n, found, rfl⟩ := Option.map_eq_some_iff.mp h
      exact .plain (natural?_eq_some.mp found)
  · intro h
    cases h with
    | plain spelled =>
      rw [integer?, natural?_eq_some.mpr spelled]
      · rfl
      · exact spelled.no_sign (by decide)
      · exact spelled.no_sign (by decide)
    | plus spelled => rw [integer?, natural?_eq_some.mpr spelled]; rfl
    | minus spelled => rw [integer?, natural?_eq_some.mpr spelled]; rfl

/-- A signed numeral is an `Int32` if and only if its value is in range. -/
theorem int32?_eq_some {index : Int32} :
    int32? text = some index ↔ SignedNumeral text index.toInt := by
  rw [← integer?_eq_some, int32?, Option.bind_eq_bind, Option.bind_eq_some_iff]
  constructor
  · rintro ⟨value, found, inRange⟩
    split at inRange
    · next range =>
      cases inRange
      rw [Int32.toInt_ofInt_of_le range.1 range.2]
      exact found
    · cases inRange
  · intro found
    exact ⟨index.toInt, found, by
      rw [if_pos ⟨index.le_toInt, index.toInt_lt⟩, Int32.ofInt_toInt]⟩

theorem natural?_unsigned {value : Nat} :
    natural? (match text with | '+' :: digits => digits | digits => digits) = some value ↔
      UnsignedNumeral text value := by
  rw [natural?_eq_some]
  constructor
  · intro spelled
    split at spelled
    · exact .plus spelled
    · exact .plain spelled
  · intro h
    cases h with
    | plain spelled =>
      split
      · exact absurd rfl (spelled.no_sign (by decide) _)
      · exact spelled
    | plus spelled => exact spelled

/-- An unsigned numeral is a `UInt16` if and only if its value is in range. -/
theorem uint16?_eq_some {count : UInt16} :
    uint16? text = some count ↔ UnsignedNumeral text count.toNat := by
  unfold uint16?
  rw [← natural?_unsigned, Option.bind_eq_bind, Option.bind_eq_some_iff]
  constructor
  · rintro ⟨value, found, inRange⟩
    split at inRange
    · next small =>
      cases inRange
      rw [UInt16.toNat_ofNat_of_lt' small]
      exact found
    · cases inRange
  · intro found
    exact ⟨count.toNat, found, by rw [if_pos count.toNat_lt, UInt16.ofNat_toNat]⟩

end Text

/-! ### Commands -/

namespace Command

/-- The words of a line that is a command, in a file. -/
inductive Spells (file : String) : List String → Command → Prop
  | access (op : StackOp) (segment : Segment) {index : Int32} {numeral : String}
      (spelled : Text.SignedNumeral numeral.toList index.toInt) :
      Spells file [op.keyword, segment.name, numeral] (access op segment index file)
  | label (name : String) : Spells file ["label", name] (label name)
  | goto (name : String) : Spells file ["goto", name] (goto name)
  | ifGoto (name : String) : Spells file ["if-goto", name] (ifGoto name)
  | function {name numeral : String} {locals : UInt16}
      (spelled : Text.UnsignedNumeral numeral.toList locals.toNat) :
      Spells file ["function", name, numeral] (function name locals)
  | call {name numeral : String} {args : UInt16}
      (spelled : Text.UnsignedNumeral numeral.toList args.toNat) :
      Spells file ["call", name, numeral] (call name args)
  | ret : Spells file ["return"] ret
  | operator (op : Operator) : Spells file [op.mnemonic] (operator op)

variable {file keyword : String} {operands : List String} {c : Command}

theorem elim_eq_ok {ε α : Type} {found : Option α} {e : ε} {a : α} :
    found.elim (.error e) Except.ok = .ok a ↔ found = some a := by
  cases found <;> simp

theorem readNumber_eq_ok {α : Type} {parse? : List Char → Option α} {token : String} {value : α} :
    readNumber parse? token = .ok value ↔ parse? token.toList = some value :=
  elim_eq_ok

theorem segment_read_eq_ok {text : String} {segment : Segment} :
    Segment.read text = .ok segment ↔ text = segment.name := by
  rw [Segment.read, elim_eq_ok]
  constructor
  · exact Segment.ofText?_eq_some
  · rintro rfl
    exact Segment.ofText?_name segment

theorem operator_read_eq_ok {text : String} {op : Operator} :
    Operator.read text = .ok op ↔ text = op.mnemonic := by
  rw [Operator.read, elim_eq_ok]
  constructor
  · exact Operator.ofText?_eq_some
  · rintro rfl
    exact Operator.ofText?_mnemonic op

theorem readAccess_eq_ok {op : StackOp} :
    readAccess op file operands = .ok c ↔ ∃ segment index numeral,
      operands = [Segment.name segment, numeral] ∧
        Text.SignedNumeral numeral.toList (Int32.toInt index) ∧
          c = access op segment index file := by
  constructor
  · intro h
    unfold readAccess at h
    split at h
    · obtain ⟨segment, named, h⟩ := Except.bind_eq_ok.mp h
      obtain ⟨index, counted, h⟩ := Except.bind_eq_ok.mp h
      cases h
      rw [segment_read_eq_ok] at named
      rw [readNumber_eq_ok, Text.int32?_eq_some] at counted
      exact ⟨segment, index, _, by rw [named], counted, rfl⟩
    · cases h
  · rintro ⟨segment, index, numeral, rfl, spelled, rfl⟩
    have named : Segment.read segment.name = .ok segment := segment_read_eq_ok.mpr rfl
    have counted : readNumber Text.int32? numeral = .ok index :=
      readNumber_eq_ok.mpr (Text.int32?_eq_some.mpr spelled)
    rw [readAccess, named, counted]
    rfl

theorem readName_eq_ok {make : String → Command} :
    readName keyword make operands = .ok c ↔ ∃ name, operands = [name] ∧ c = make name := by
  unfold readName
  split <;> simp_all [eq_comm]

theorem readCounted_eq_ok (keyword : String) {make : String → UInt16 → Command} :
    readCounted keyword make operands = .ok c ↔ ∃ name count numeral,
      operands = [name, numeral] ∧ Text.UnsignedNumeral numeral.toList (UInt16.toNat count) ∧
        c = make name count := by
  constructor
  · intro h
    unfold readCounted at h
    split at h
    · obtain ⟨count, counted, rfl⟩ := Except.map_eq_ok.mp h
      rw [readNumber_eq_ok, Text.uint16?_eq_some] at counted
      exact ⟨_, count, _, rfl, counted, rfl⟩
    · cases h
  · rintro ⟨name, count, numeral, rfl, spelled, rfl⟩
    have counted : readNumber Text.uint16? numeral = .ok count :=
      readNumber_eq_ok.mpr (Text.uint16?_eq_some.mpr spelled)
    rw [readCounted, counted]
    rfl

theorem readReturn_eq_ok : readReturn operands = .ok c ↔ operands = [] ∧ c = ret := by
  unfold readReturn
  split <;> simp_all [eq_comm]

theorem readOperator_eq_ok : readOperator keyword operands = .ok c ↔
    ∃ op, operands = [] ∧ keyword = Operator.mnemonic op ∧ c = operator op := by
  unfold readOperator
  split
  · simp only [Except.map_eq_ok, operator_read_eq_ok, @eq_comm _ _ c, true_and]
  · simp_all

/-- A line reads as the command that it spells. -/
theorem read_eq_ok : read file keyword operands = .ok c ↔ Spells file (keyword :: operands) c := by
  constructor
  · intro h
    unfold read at h
    split at h
    · obtain ⟨segment, index, numeral, rfl, spelled, rfl⟩ := readAccess_eq_ok.mp h
      exact .access .push segment spelled
    · obtain ⟨segment, index, numeral, rfl, spelled, rfl⟩ := readAccess_eq_ok.mp h
      exact .access .pop segment spelled
    · obtain ⟨name, rfl, rfl⟩ := readName_eq_ok.mp h
      exact .label name
    · obtain ⟨name, rfl, rfl⟩ := readName_eq_ok.mp h
      exact .goto name
    · obtain ⟨name, rfl, rfl⟩ := readName_eq_ok.mp h
      exact .ifGoto name
    · obtain ⟨name, count, numeral, rfl, spelled, rfl⟩ := (readCounted_eq_ok _).mp h
      exact .function spelled
    · obtain ⟨name, count, numeral, rfl, spelled, rfl⟩ := (readCounted_eq_ok _).mp h
      exact .call spelled
    · obtain ⟨rfl, rfl⟩ := readReturn_eq_ok.mp h
      exact .ret
    · obtain ⟨op, rfl, rfl, rfl⟩ := readOperator_eq_ok.mp h
      exact .operator op
  · intro h
    cases h with
    | @access op segment index numeral spelled =>
      cases op with
      | push => exact readAccess_eq_ok.mpr ⟨segment, index, numeral, rfl, spelled, rfl⟩
      | pop => exact readAccess_eq_ok.mpr ⟨segment, index, numeral, rfl, spelled, rfl⟩
    | label name => rfl
    | goto name => rfl
    | ifGoto name => rfl
    | @function name numeral locals spelled =>
      exact (readCounted_eq_ok "function").mpr ⟨name, locals, numeral, rfl, spelled, rfl⟩
    | @call name numeral args spelled =>
      exact (readCounted_eq_ok "call").mpr ⟨name, args, numeral, rfl, spelled, rfl⟩
    | ret => rfl
    | operator op => cases op <;> rfl

/-! ### Lines -/

/-- The words of each line of a source, which has none if it is blank or a comment. -/
def lineWords (source : String) : List (List String) :=
  (source.toList.splitOn '\n').map fun line =>
    (Text.words (SourceText.beforeComment line)).map String.ofList

/-- The commands of some lines, the first of which has a number. -/
def parseLines (file : String) : Nat → List (List String) → Except SourceError (List Command)
  | _, [] => .ok []
  | number, [] :: rest => parseLines file (number + 1) rest
  | number, (keyword :: operands) :: rest => do
    let c ← atLine number (read file keyword operands)
    let later ← parseLines file (number + 1) rest
    return c :: later

/-- A line that has words and does not spell a command. -/
def IsFault (file : String) (all : List (List String)) (i : Nat) : Prop :=
  ∃ words, all[i]? = some words ∧ words ≠ [] ∧ ∀ c, ¬ Spells file words c

/-- The entry of a line in the list of those that have words. -/
def keyed? (line : List String × Nat) : Option (Nat × String × List String) :=
  match line.1 with
  | [] => none
  | keyword :: operands => some (line.2, keyword, operands)

theorem sourceLines_eq (source : String) :
    sourceLines source = ((lineWords source).zipIdx 1).filterMap keyed? := by
  have kept : sourceLines source = ((Text.lines source.toList).zipIdx 1).filterMap fun line =>
      keyed? ((Text.words (SourceText.beforeComment line.1)).map String.ofList, line.2) := by
    rw [sourceLines, Text.numberedCode, List.filterMap_map]
    congr 1
    funext line
    simp only [Function.comp_apply, SourceText.code_eq_beforeComment]
    rfl
  have all : ((lineWords source).zipIdx 1).filterMap keyed? =
      ((source.toList.splitOn '\n').zipIdx 1).filterMap fun line =>
        keyed? ((Text.words (SourceText.beforeComment line.1)).map String.ofList, line.2) := by
    rw [lineWords, List.zipIdx_map, List.filterMap_map]
    rfl
  rw [kept, all, Text.lines]
  split
  · next last =>
    -- The empty piece behind the last line feed has no words.
    obtain ⟨front, same⟩ := List.getLast?_eq_some_iff.mp last
    rw [same, List.dropLast_concat, List.zipIdx_append, List.filterMap_append]
    simp [keyed?, Text.words, SourceText.beforeComment]
  · rfl

theorem parse_eq_parseLines (source file : String) :
    parse source file = parseLines file 1 (lineWords source) := by
  have lines : ∀ (all : List (List String)) (number : Nat),
      ((all.zipIdx number).filterMap keyed?).mapM (fun line =>
        atLine line.1 (read file line.2.1 line.2.2)) = parseLines file number all := by
    intro all
    induction all with
    | nil => intro number; rfl
    | cons words rest ih =>
      intro number
      rw [List.zipIdx_cons]
      cases words with
      | nil => exact ih (number + 1)
      | cons keyword operands =>
        rw [parseLines, ← ih (number + 1)]
        exact List.mapM_cons
  rw [parse, sourceLines_eq]
  exact lines (lineWords source) 1

/-! ### Sources in two parts -/

/-- Places an error a number of lines further down. -/
def shift (lines : Nat) (e : SourceError) : SourceError := ⟨e.line + lines, e.defect⟩

theorem parseLines_append (file : String) (number : Nat) (front back : List (List String)) :
    parseLines file number (front ++ back) = (do
      let first ← parseLines file number front
      let second ← parseLines file (number + front.length) back
      return first ++ second) := by
  induction front generalizing number with
  | nil => exact (bind_pure (parseLines file number back)).symm
  | cons words rest ih =>
    have place : number + (words :: rest).length = number + 1 + rest.length := by
      rw [List.length_cons]
      omega
    rw [place]
    cases words with
    | nil => exact ih (number + 1)
    | cons keyword operands =>
      rw [List.cons_append, parseLines, parseLines, ih]
      simp only [bind_assoc, pure_bind, List.cons_append]

theorem parseLines_add (file : String) (number lines : Nat) (all : List (List String)) :
    parseLines file (number + lines) all =
      (parseLines file number all).mapError (shift lines) := by
  induction all generalizing number with
  | nil => rfl
  | cons words rest ih =>
    cases words with
    | nil =>
      rw [parseLines, parseLines, Nat.add_right_comm, ih]
    | cons keyword operands =>
      rw [parseLines, parseLines, Nat.add_right_comm, ih]
      cases read file keyword operands with
      | error defect => rfl
      | ok c => cases parseLines file (number + 1) rest <;> rfl

theorem length_splitOn (text : List Char) : (text.splitOn '\n').length = text.count '\n' + 1 := by
  induction text with
  | nil => rfl
  | cons c text ih =>
    rw [List.splitOn_cons_eq_if_modifyHead, List.count_cons]
    split
    · rw [List.length_cons, ih]
    · rw [List.length_modifyHead, ih]

theorem lineWords_append (front back : String) :
    lineWords (front ++ "\n" ++ back) = lineWords front ++ lineWords back := by
  have text : (front ++ "\n" ++ back).toList = front.toList ++ '\n' :: back.toList := by
    simp
  rw [lineWords, text, List.splitOn_append_cons_self, List.map_append]
  rfl

/-- A source can be read in two parts, the second of which starts after the line feeds of the
first and one more. -/
theorem parse_append (front back file : String) : parse (front ++ "\n" ++ back) file = (do
    let first ← parse front file
    let second ← (parse back file).mapError (shift (front.toList.count '\n' + 1))
    return first ++ second) := by
  have length : (lineWords front).length = front.toList.count '\n' + 1 := by
    rw [lineWords, List.length_map, length_splitOn]
  simp only [parse_eq_parseLines, lineWords_append, parseLines_append, length, parseLines_add]

/-! ### Acceptance and faults -/

section

variable {number : Nat} {all : List (List String)} {commands : List Command}

/-- The lines that have words are read as the commands that they spell. -/
theorem parseLines_eq_ok : parseLines file number all = .ok commands ↔
    List.Forall₂ (Spells file) (all.filter (! ·.isEmpty)) commands := by
  induction all generalizing number commands with
  | nil => simp [parseLines, eq_comm]
  | cons words rest ih =>
    cases words with
    | nil => exact ih
    | cons keyword operands =>
      rw [List.filter_cons_of_pos rfl, List.forall₂_cons_left_iff, parseLines]
      simp only [Except.bind_eq_ok, atLine_eq_ok, read_eq_ok, ih]
      constructor
      · rintro ⟨c, spells, later, reads, ⟨⟩⟩
        exact ⟨c, later, spells, reads, rfl⟩
      · rintro ⟨c, later, spells, reads, rfl⟩
        exact ⟨c, spells, later, reads, rfl⟩

theorem isFault_zero {words : List String} :
    IsFault file (words :: all) 0 ↔ words ≠ [] ∧ ∀ c, ¬ Spells file words c := by
  simp [IsFault]

theorem isFault_succ {words : List String} {i : Nat} :
    IsFault file (words :: all) (i + 1) ↔ IsFault file all i := by
  simp [IsFault]

/-- A line without a fault moves the first fault behind it by one place. -/
theorem isLeast_cons {words : List String} {i : Nat} (sound : ¬ IsFault file (words :: all) 0)
    (h : IsLeast {i | IsFault file all i} i) :
    IsLeast {i | IsFault file (words :: all) i} (i + 1) := by
  refine ⟨isFault_succ.mpr h.1, fun j fault => ?_⟩
  cases j with
  | zero => exact absurd fault sound
  | succ j => exact Nat.succ_le_succ (h.2 (isFault_succ.mp fault))

/-- The first line that has words and spells no command is reported. -/
theorem isLeast_fault {e : SourceError} (h : parseLines file number all = .error e) :
    ∃ i, e.line = number + i ∧ IsLeast {i | IsFault file all i} i := by
  induction all generalizing number with
  | nil => cases h
  | cons words rest ih =>
    have further (sound : ¬ IsFault file (words :: rest) 0)
        (later : parseLines file (number + 1) rest = .error e) :
        ∃ i, e.line = number + i ∧ IsLeast {i | IsFault file (words :: rest) i} i := by
      obtain ⟨i, place, least⟩ := ih later
      exact ⟨i + 1, by omega, isLeast_cons sound least⟩
    cases words with
    | nil => exact further (by simp [isFault_zero]) h
    | cons keyword operands =>
      rw [parseLines] at h
      rcases Except.bind_eq_error.mp h with here | ⟨c, spelled, h⟩
      · obtain ⟨defect, refused, rfl⟩ := atLine_eq_error.mp here
        refine ⟨0, rfl, isFault_zero.mpr ⟨List.cons_ne_nil _ _, fun c spells => ?_⟩, ?_⟩
        · cases (read_eq_ok.mpr spells).symm.trans refused
        · exact fun j _ => Nat.zero_le j
      · rcases Except.bind_eq_error.mp h with later | ⟨_, -, done⟩
        · have spells := read_eq_ok.mp (atLine_eq_ok.mp spelled)
          exact further (fun fault => (isFault_zero.mp fault).2 c spells) later
        · cases done

theorem exists_parseLines_iff :
    (∃ commands, parseLines file number all = .ok commands) ↔ ∀ i, ¬ IsFault file all i := by
  constructor
  · rintro ⟨commands, reads⟩ i ⟨words, found, some, none⟩
    have inside : words ∈ all.filter (! ·.isEmpty) :=
      List.mem_filter.mpr ⟨List.mem_of_getElem? found, by simpa using some⟩
    obtain ⟨c, -, spells⟩ := exists_of_mem_forall₂ (parseLines_eq_ok.mp reads) inside
    exact none c spells
  · intro sound
    cases reads : parseLines file number all with
    | ok commands => exact ⟨commands, rfl⟩
    | error e =>
      obtain ⟨i, -, least⟩ := isLeast_fault reads
      exact absurd least.1 (sound i)

end

/-- A source is read if and only if all its lines that have words spell a command, and as these
commands. Otherwise the first other line is reported. Two sources with a line feed between them read
as they do alone, but for the line numbers of the second. -/
theorem parse_iff_spells (source file : String) :
    (∀ commands, parse source file = .ok commands ↔
      List.Forall₂ (Spells file) ((lineWords source).filter (! ·.isEmpty)) commands) ∧
    ((∃ commands, parse source file = .ok commands) ↔ ∀ i, ¬ IsFault file (lineWords source) i) ∧
    (∀ e, parse source file = .error e →
      ∃ i, e.line = i + 1 ∧ IsLeast {i | IsFault file (lineWords source) i} i) ∧
    ∀ front back, source = front ++ "\n" ++ back → parse source file = (do
      let first ← parse front file
      let second ← (parse back file).mapError (shift (front.toList.count '\n' + 1))
      return first ++ second) := by
  refine ⟨fun commands => ?_, ?_, fun e fails => ?_, ?_⟩
  · rw [parse_eq_parseLines]
    exact parseLines_eq_ok
  · rw [parse_eq_parseLines]
    exact exists_parseLines_iff
  · rw [parse_eq_parseLines] at fails
    obtain ⟨i, place, least⟩ := isLeast_fault fails
    exact ⟨i, by omega, least⟩
  · rintro front back rfl
    exact parse_append front back file

/-- Two commands, with signs, a comment that touches a number and lines without words. -/
def signedSource : String := "push local -1//top\r\n \n\tcall f +02"

theorem parse_iff_spells_signedSource :
    parse signedSource "F" = .ok [access .push .localVar (-1) "F", call "f" 2] ∧
    List.Forall₂ (Spells "F") [["push", "local", "-1"], ["call", "f", "+02"]]
      [access .push .localVar (-1) "F", call "f" 2] ∧
    parse (signedSource ++ "\n" ++ "// note\npop heap 0\nadd 1") "F" =
      .error ⟨5, .unknownSegment "heap"⟩ ∧
    IsLeast {i | IsFault "F" (lineWords (signedSource ++ "\n" ++ "// note\npop heap 0\nadd 1")) i}
      4 := by
  have reads : parse signedSource "F" = .ok [access .push .localVar (-1) "F", call "f" 2] := by
    rfl
  have second : parse "// note\npop heap 0\nadd 1" "F" = .error ⟨2, .unknownSegment "heap"⟩ := by
    rfl
  have spells := ((parse_iff_spells signedSource "F").1 _).mp reads
  obtain ⟨-, -, first, split⟩ :=
    parse_iff_spells (signedSource ++ "\n" ++ "// note\npop heap 0\nadd 1") "F"
  have fails := split signedSource "// note\npop heap 0\nadd 1" rfl
  rw [reads, second] at fails
  obtain ⟨i, place, least⟩ := first _ fails
  cases place
  exact ⟨reads, spells, fails, least⟩

end Command

end HackToolchain
