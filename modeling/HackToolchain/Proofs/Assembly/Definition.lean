import HackToolchain.Proofs.Assembly.Passes

/-! What a source means as machine code, said of its characters alone: which lines it has, which of
them are instructions, where a symbol lies, and the bits of an instruction. The assembler gives
every source that it accepts this meaning. -/

namespace HackToolchain

/-! ### The meaning of a source -/

namespace SourceText

/-- The part of a line before the first two slashes. -/
def beforeComment : List Char → List Char
  | [] => []
  | '/' :: '/' :: _ => []
  | c :: rest => c :: beforeComment rest

/-- The lines of a source: without comments and white space, and not empty. -/
def lines (source : String) : List (List Char) :=
  ((source.toList.splitOn '\n').map fun line =>
    (beforeComment line).filter (! Text.isBlank ·)).filter (! ·.isEmpty)

/-- The line that declares a label. -/
def labelLine (name : String) : List Char := '(' :: (name.toList ++ [')'])

/-- The line that refers to a symbol. -/
def symbolLine (name : String) : List Char := '@' :: name.toList

def isInstruction (line : List Char) : Bool := ! line.head? == some '('

def startsWithDigit (text : List Char) : Bool := text.head?.any Char.isDigit

/-- The symbol that a line refers to. -/
def symbol? : List Char → Option String
  | '@' :: operand => if startsWithDigit operand then none else some (String.ofList operand)
  | _ => none

variable (source : List (List Char))

/-- The distinct symbols that some lines refer to and that are neither predefined nor declared
anywhere in the source. -/
def freeSymbols (lines : List (List Char)) : List String :=
  ((lines.filterMap symbol?).filter fun name =>
    predefinedSymbols.lookup name = none ∧ labelLine name ∉ source).eraseDups

/-- The address of a symbol: a fixed one, the number of instructions before its declaration, or the
cell after those of the variables that are used first. -/
def address (name : String) : Nat :=
  match predefinedSymbols.lookup name with
  | some cell => cell
  | none =>
    if labelLine name ∈ source then
      ((source.takeWhile (· ≠ labelLine name)).filter isInstruction).length
    else 16 + (freeSymbols source (source.takeWhile (· ≠ symbolLine name))).length

/-- The value of what follows an at sign: a decimal literal or the address of a symbol. -/
def operandValue (operand : List Char) : Nat :=
  if startsWithDigit operand then Nat.ofDigitChars 10 operand 0
  else address source (String.ofList operand)

/-- The part before the first equals sign, and the rest. -/
def cutDestination (line : List Char) : List Char × List Char :=
  if '=' ∈ line then (line.takeWhile (· ≠ '='), (line.dropWhile (· ≠ '=')).tail) else ([], line)

/-- The part before the first semicolon, and the rest. -/
def cutJump (rest : List Char) : List Char × List Char :=
  (rest.takeWhile (· ≠ ';'), (rest.dropWhile (· ≠ ';')).tail)

/-- Three ones, then the bits of the computation, the destinations and the jump. -/
def computeWord? (line : List Char) : Option Word :=
  let (dest, rest) := cutDestination line
  let (comp, jump) := cutJump rest
  do
    let c ← Mnemonic.computations.lookup (String.ofList comp)
    let d ← Mnemonic.destinations.lookup (String.ofList dest)
    let j ← Mnemonic.jumps.lookup (String.ofList jump)
    return 0b111#3 ++ c ++ d ++ j

/-- The word of an instruction line. -/
def word? : List Char → Option Word
  | '@' :: operand =>
    if operandValue source operand < 32768 then
      some (BitVec.ofNat 16 (operandValue source operand))
    else none
  | line => computeWord? line

/-! ### Lines as characters and lines as read -/

theorem code_eq_beforeComment (line : List Char) : Text.code line = beforeComment line := by
  fun_induction beforeComment line with
  | case1 => rfl
  | case2 rest => simp [Text.code_cons]
  | case3 c rest noComment ih =>
    rw [Text.code_cons, if_neg, ih]
    rintro ⟨rfl, next⟩
    obtain ⟨tail, rfl⟩ := List.head?_eq_some_iff.mp next
    exact noComment tail rfl rfl

theorem cleanLines_eq_lines (source : String) :
    Text.cleanLines source.toList = lines source := by
  have same : Text.clean = fun line => (beforeComment line).filter (! Text.isBlank ·) := by
    funext line
    rw [Text.clean, code_eq_beforeComment, Text.unspaced]
  rw [Text.cleanLines, same, lines]

/-- A line reads as a label declaration if and only if it is the line that declares it. -/
theorem eq_labelLine_iff {text : List Char} {line : Line} (h : Line.read text = .ok line)
    (name : String) : text = labelLine name ↔ line = .label name := by
  match text with
  | [] => simp [Line.read, Line.readCompute, cut?, Except.map] at h
  | c :: rest =>
    by_cases hOpen : c = '('
    · subst hOpen
      obtain ⟨other, rfl, -, rfl⟩ := Line.read_label.mp h
      simp [labelLine, String.toList_inj]
    · have noLabel : line ≠ .label name := by
        rintro rfl
        by_cases hAt : c = '@'
        · subst hAt
          obtain ⟨_, _, different⟩ := Line.read_address.mp h
          contradiction
        · obtain ⟨_, _, different⟩ := (Line.read_other hAt hOpen).mp h
          contradiction
      simp [labelLine, hOpen, noLabel]

theorem isInstruction_iff {text : List Char} {line : Line} (h : Line.read text = .ok line) :
    isInstruction text ↔ line.instruction?.isSome := by
  match text with
  | [] => simp [Line.read, Line.readCompute, cut?, Except.map] at h
  | c :: rest =>
    by_cases hOpen : c = '('
    · subst hOpen
      obtain ⟨other, rfl, -, rfl⟩ := Line.read_label.mp h
      simp [isInstruction, Line.instruction?]
    · have isSome : line.instruction?.isSome := by
        by_cases hAt : c = '@'
        · subst hAt
          obtain ⟨_, _, rfl⟩ := Line.read_address.mp h
          rfl
        · obtain ⟨_, _, rfl⟩ := (Line.read_other hAt hOpen).mp h
          rfl
      simp [isInstruction, hOpen, isSome]

theorem startsWithDigit_of_natural? {operand : List Char} {value : Nat}
    (h : Text.natural? operand = some value) :
    startsWithDigit operand = true ∧ Nat.ofDigitChars 10 operand 0 = value := by
  obtain ⟨c, rest, rfl, digit⟩ := natural?_head h
  rw [Text.natural?] at h
  split at h
  · exact ⟨by simpa [startsWithDigit] using digit, by simpa using h⟩
  · contradiction

theorem startsWithDigit_of_isSymbol {name : List Char} (h : isSymbol name) :
    startsWithDigit name = false := by
  cases name with
  | nil => rfl
  | cons c rest => simpa [startsWithDigit] using isSymbol_head h

theorem symbol?_eq {text : List Char} {line : Line} (h : Line.read text = .ok line) :
    symbol? text = line.instruction?.bind Instruction.symbol? := by
  match text with
  | [] => simp [Line.read, Line.readCompute, cut?, Except.map] at h
  | c :: rest =>
    by_cases hAt : c = '@'
    · subst hAt
      obtain ⟨o, read, rfl⟩ := Line.read_address.mp h
      rcases Operand.read_eq_ok.mp read with ⟨value, rfl, found, -⟩ | ⟨name, rfl, isName, rfl⟩
      · simp [symbol?, startsWithDigit_of_natural? found, Line.instruction?, Instruction.symbol?]
      · simp [symbol?, startsWithDigit_of_isSymbol isName, Line.instruction?, Instruction.symbol?]
    · have noSymbol : symbol? (c :: rest) = none := by
        rw [symbol?]
        grind
      rw [noSymbol]
      by_cases hOpen : c = '('
      · subst hOpen
        obtain ⟨other, -, -, rfl⟩ := Line.read_label.mp h
        rfl
      · obtain ⟨i, read, rfl⟩ := (Line.read_other hAt hOpen).mp h
        simp only [Line.readCompute] at read
        split at read
        · contradiction
        · cases read
          rfl

/-! ### Sources as characters and as read -/

section Reads

variable {source part : List (List Char)} {lines partLines : List Line} {name : String}

theorem labelLine_mem (reads : source.mapM Line.read = .ok lines) :
    labelLine name ∈ source ↔ name ∈ Lines.declared lines := by
  induction source generalizing lines with
  | nil =>
    cases reads
    simp [Lines.declared]
  | cons text source ih =>
    obtain ⟨line, rest, read, readsRest, rfl⟩ := mapM_cons_eq_ok.mp reads
    rw [List.mem_cons, ih readsRest, eq_comm, eq_labelLine_iff read]
    cases line with
    | label other => simp [eq_comm]
    | instruction i => simp

/-- The lines before the declaration of a label hold as many instructions as its address says. -/
theorem labelAddress?_eq (reads : source.mapM Line.read = .ok lines)
    (declared : labelLine name ∈ source) : Lines.labelAddress? lines name =
      some ((source.takeWhile (· ≠ labelLine name)).filter isInstruction).length := by
  induction source generalizing lines with
  | nil => simp at declared
  | cons text source ih =>
    obtain ⟨line, rest, read, readsRest, rfl⟩ := mapM_cons_eq_ok.mp reads
    have here := eq_labelLine_iff read name
    by_cases same : text = labelLine name
    · rw [here.mp same, Lines.labelAddress?, if_pos rfl]
      simp [same]
    · have later : labelLine name ∈ source := by
        rcases List.mem_cons.mp declared with first | later
        · exact absurd first.symm same
        · exact later
      have kind := isInstruction_iff read
      rw [List.takeWhile_cons_of_pos (by simpa using same)]
      cases line with
      | label other =>
        have different : other ≠ name := fun same' => same (here.mpr (by rw [same']))
        have noInstruction : isInstruction text = false := by simpa [Line.instruction?] using kind
        rw [Lines.labelAddress?, if_neg different, ih readsRest later,
          List.filter_cons_of_neg (by simp [noInstruction])]
      | instruction i =>
        rw [Lines.labelAddress?, ih readsRest later, List.filter_cons_of_pos (kind.mpr rfl)]
        rfl

theorem filterMap_symbol? (reads : source.mapM Line.read = .ok lines) :
    source.filterMap symbol? = (Lines.code lines).filterMap Instruction.symbol? := by
  induction source generalizing lines with
  | nil =>
    cases reads
    rfl
  | cons text source ih =>
    obtain ⟨line, rest, read, readsRest, rfl⟩ := mapM_cons_eq_ok.mp reads
    rw [List.filterMap_cons, symbol?_eq read, ih readsRest]
    cases line with
    | label other => rfl
    | instruction i => simp [Line.instruction?, List.filterMap_cons]

theorem freeSymbols_eq (reads : source.mapM Line.read = .ok lines)
    (readsPart : part.mapM Line.read = .ok partLines) :
    freeSymbols source part =
      HackToolchain.freeSymbols (Lines.fixed? lines) (Lines.code partLines) := by
  have same : (fun name => decide (predefinedSymbols.lookup name = none ∧
      labelLine name ∉ source)) = fun name => (Lines.fixed? lines name).isNone := by
    funext name
    rw [Bool.eq_iff_iff, decide_eq_true_eq, Option.isNone_iff_eq_none, Lines.fixed?_eq_none,
      labelLine_mem reads]
  rw [freeSymbols, filterMap_symbol? readsPart, same, HackToolchain.freeSymbols]

theorem eq_symbolLine {text : List Char} (h : symbol? text = some name) :
    text = symbolLine name := by
  unfold symbol? at h
  split at h
  · next operand =>
    split at h
    · contradiction
    · cases h
      simp [symbolLine]
  · contradiction

/-- The first use of a variable splits the source, and the variables before it are those of the
first part. -/
theorem address_variable (reads : source.mapM Line.read = .ok lines)
    (used : symbolLine name ∈ source) (isName : isSymbol name.toList)
    (free : Lines.fixed? lines name = none) : Lines.address lines name =
      16 + (freeSymbols source (source.takeWhile (· ≠ symbolLine name))).length := by
  obtain ⟨front, back, split, first⟩ := List.eq_append_cons_of_mem used
  have before : source.takeWhile (· ≠ symbolLine name) = front := by
    rw [split, List.takeWhile_append_of_pos]
    · simp
    · intro text hText
      simpa using ne_of_mem_of_not_mem hText first
  obtain ⟨frontLines, rest, readsFront, readsRest, hLines⟩ := mapM_append_eq_ok.mp (split ▸ reads)
  obtain ⟨line, backLines, read, readsBack, rfl⟩ := mapM_cons_eq_ok.mp readsRest
  have line_eq : line = .instruction (.address (.symbol name)) := by
    obtain ⟨o, readOperand, rfl⟩ := Line.read_address.mp read
    cases readOperand.symm.trans (Operand.read_eq_ok.mpr (.inr ⟨name, rfl, isName, rfl⟩))
    rfl
  have whole : Lines.code lines =
      Lines.code frontLines ++ .address (.symbol name) :: Lines.code backLines := by
    rw [hLines, line_eq, Lines.code_append, Lines.code_instruction]
  have new : name ∉ HackToolchain.freeSymbols (Lines.fixed? lines) (Lines.code frontLines) := by
    intro inside
    obtain ⟨⟨i, hi, uses⟩, -⟩ := mem_freeSymbols.mp inside
    have again : name ∈ front.filterMap symbol? := by
      rw [filterMap_symbol? readsFront]
      exact List.mem_filterMap.mpr ⟨i, hi, uses⟩
    obtain ⟨text, hText, uses⟩ := List.mem_filterMap.mp again
    exact first (eq_symbolLine uses ▸ hText)
  rw [Assembly.address_next whole rfl free new, before, freeSymbols_eq reads readsFront]
  rfl

/-- A symbol that the source refers to has the address that its lines give it. -/
theorem address_eq (reads : source.mapM Line.read = .ok lines) (used : symbolLine name ∈ source)
    (isName : isSymbol name.toList) : address source name = Lines.address lines name := by
  rw [address]
  cases predefined : predefinedSymbols.lookup name with
  | some cell => exact (Lines.address_of_predefined predefined).symm
  | none =>
    by_cases declared : labelLine name ∈ source
    · simp only [declared, if_true, Lines.address, Lines.fixed?, predefined, Option.none_or,
        labelAddress?_eq reads declared, Option.getD_some]
    · have free : Lines.fixed? lines name = none :=
        Lines.fixed?_eq_none.mpr
          ⟨predefined, fun inside => declared ((labelLine_mem reads).mpr inside)⟩
      rw [address_variable reads used isName free]
      simp only [declared, if_false]

theorem encodeAddress_eq_some {value : Nat} {word : Word} : encodeAddress value = .ok word ↔
    (if value < 32768 then some (BitVec.ofNat 16 value) else none) = some word := by
  have bound : value ≤ Platform.maxAddress ↔ value < 32768 := by
    rw [Platform.maxAddress]
    omega
  rw [encodeAddress_eq_ok, bound]
  split
  · next fits =>
    rw [and_iff_right fits, Option.some.injEq, eq_comm]
  · next large =>
    exact ⟨fun h => absurd h.1 large, fun h => nomatch h⟩

theorem cut?_eq (mark : Char) (text : List Char) : cut? mark text =
    if mark ∈ text then
      some (text.takeWhile (· ≠ mark), (text.dropWhile (· ≠ mark)).tail)
    else none := by
  split
  · next present =>
    obtain ⟨before, rest, rfl, first⟩ := List.eq_append_cons_of_mem present
    have keep : ∀ c ∈ before, decide (c ≠ mark) = true := fun c hc => by
      simpa using ne_of_mem_of_not_mem hc first
    rw [cut?_append first, List.takeWhile_append_of_pos keep, List.dropWhile_append_of_pos keep]
    simp
  · next absent => exact cut?_of_not_mem absent

theorem cutJump_eq (rest : List Char) : (cut? ';' rest).getD (rest, []) = cutJump rest := by
  rw [cut?_eq, cutJump]
  split
  · rfl
  · next absent =>
    have all : ∀ c ∈ rest, decide (c ≠ ';') = true := fun c hc => by
      simpa using ne_of_mem_of_not_mem hc absent
    rw [List.takeWhile_eq_self_iff.mpr all, List.dropWhile_eq_nil_iff.mpr all]
    rfl

theorem cutDestination_eq (text : List Char) :
    (cut? '=' text).getD ([], text) = cutDestination text := by
  rw [cut?_eq, cutDestination]
  split <;> rfl

theorem exists_of_readCompute {text : List Char} {i : Instruction}
    (reads : Line.readCompute text = .ok i) : ∃ dest comp jmp, i = .compute dest comp jmp := by
  simp only [Line.readCompute] at reads
  split at reads
  · cases reads
  · cases reads
    exact ⟨_, _, _, rfl⟩

/-- A compute line has a word if and only if its three parts are encoded to it. -/
theorem computeWord?_eq {text : List Char} {i : Instruction}
    (h : Line.readCompute text = .ok i) (resolve : String → Nat) (word : Word) :
    i.encode resolve = .ok word ↔ computeWord? text = some word := by
  simp only [Line.readCompute, cutDestination_eq, cutJump_eq] at h
  split at h
  · contradiction
  · cases h
    simp only [Instruction.encode, Mnemonic.encode_eq_ok, computeWord?, Option.bind_eq_some_iff,
      bind, pure, Option.some.injEq]
    grind

/-- An instruction line has a word if and only if the instruction read from it is encoded to it. -/
theorem word?_eq (reads : source.mapM Line.read = .ok lines) {text : List Char}
    (inside : text ∈ source) {i : Instruction} (read : Line.read text = .ok (.instruction i))
    (word : Word) : i.encode (Lines.address lines) = .ok word ↔ word? source text = some word := by
  match text with
  | [] => simp [Line.read, Line.readCompute, cut?, Except.map] at read
  | c :: rest =>
    by_cases hAt : c = '@'
    · subst hAt
      obtain ⟨o, readOperand, same⟩ := Line.read_address.mp read
      cases same
      rw [word?]
      rcases Operand.read_eq_ok.mp readOperand with
        ⟨value, rfl, found, -⟩ | ⟨name, rfl, isName, rfl⟩
      · obtain ⟨digit, hValue⟩ := startsWithDigit_of_natural? found
        simp only [operandValue, digit, if_true, hValue, Instruction.encode]
        exact encodeAddress_eq_some
      · have resolved := address_eq reads inside isName
        simp only [operandValue, startsWithDigit_of_isSymbol isName, Bool.false_eq_true, if_false,
          String.ofList_toList, resolved, Instruction.encode]
        exact encodeAddress_eq_some
    · have hOpen : c ≠ '(' := by
        rintro rfl
        obtain ⟨_, -, -, different⟩ := Line.read_label.mp read
        contradiction
      obtain ⟨_, readParts, same⟩ := (Line.read_other hAt hOpen).mp read
      cases same
      rw [computeWord?_eq readParts, word?]
      grind

/-- The instruction lines are those that the instructions were read from. -/
theorem filter_isInstruction (reads : source.mapM Line.read = .ok lines) :
    (source.filter isInstruction).mapM Line.read =
      .ok ((Lines.code lines).map Line.instruction) := by
  induction source generalizing lines with
  | nil =>
    cases reads
    rfl
  | cons text source ih =>
    obtain ⟨line, rest, read, readsRest, rfl⟩ := mapM_cons_eq_ok.mp reads
    have kind := isInstruction_iff read
    cases line with
    | label other =>
      rw [List.filter_cons_of_neg (by simp [kind, Line.instruction?]), ih readsRest]
      rfl
    | instruction i =>
      rw [List.filter_cons_of_pos (kind.mpr rfl), mapM_cons_eq_ok]
      exact ⟨_, _, read, ih readsRest, rfl⟩

theorem map_word? (reads : source.mapM Line.read = .ok lines) {texts : List (List Char)}
    {code : List Instruction} {words : List Word} (inside : ∀ text ∈ texts, text ∈ source)
    (readsCode : texts.mapM Line.read = .ok (code.map Line.instruction))
    (encoded : code.mapM (Instruction.encode (Lines.address lines)) = .ok words) :
    texts.map (word? source) = words.map some := by
  induction texts generalizing code words with
  | nil =>
    cases code with
    | nil =>
      cases encoded
      rfl
    | cons i code => simp [pure, Except.pure] at readsCode
  | cons text texts ih =>
    obtain ⟨line, rest, read, readsRest, hCode⟩ := mapM_cons_eq_ok.mp readsCode
    cases code with
    | nil => contradiction
    | cons i code =>
      cases hCode
      obtain ⟨word, others, here, later, rfl⟩ := mapM_cons_eq_ok.mp encoded
      rw [List.map_cons, List.map_cons, (word?_eq reads (inside text (by simp)) read word).mp here,
        ih (fun t ht => inside t (by simp [ht])) readsRest later]

end Reads

/-- A source that assembles has one word for each instruction line, in order, and that is the word
that the line means; a source with the same lines assembles to the same words. -/
theorem words_of_assemble {source : String} {image : Image} (h : assemble source = .ok image) :
    ((lines source).filter isInstruction).map (word? (lines source)) =
      image.words.toList.map some ∧
    ∀ other, lines other = lines source → assemble other = .ok image := by
  obtain ⟨read, reads, placeable, encoded⟩ := assemble_eq_ok_iff.mp h
  rw [readSource, cleanLines_eq_lines] at reads
  refine ⟨?_, fun other same => ?_⟩
  · exact map_word? reads (fun text hText => (List.mem_filter.mp hText).1)
      (filter_isInstruction reads) encoded
  · refine assemble_eq_ok_iff.mpr ⟨read, ?_, placeable, encoded⟩
    rw [readSource, cleanLines_eq_lines, same, reads]

/-- A label is used before its declaration, with two variables around it. -/
def forwardSource : String :=
  "@END // forward\n0;JMP\n@x\n(END)\n @ y\nM = D + M ; JGT\n@x\n@007\n"

theorem words_of_assemble_forward :
    assemble forwardSource = .ok ⟨#[3, 0xEA87, 16, 17, 0xF089, 16, 7]⟩ ∧
      ((lines forwardSource).filter isInstruction).map (word? (lines forwardSource)) =
        [3, 0xEA87, 16, 17, 0xF089, 16, 7].map some := by
  have assembles : assemble forwardSource = .ok ⟨#[3, 0xEA87, 16, 17, 0xF089, 16, 7]⟩ :=
    assemble_eq_ok_iff.mpr ⟨[.instruction (.address (.symbol "END")),
      .instruction (.compute "" "0" "JMP"), .instruction (.address (.symbol "x")), .label "END",
      .instruction (.address (.symbol "y")), .instruction (.compute "M" "D+M" "JGT"),
      .instruction (.address (.symbol "x")), .instruction (.address (.literal 7))], by rfl,
      ⟨by decide, by decide, by decide⟩, by rfl⟩
  exact ⟨assembles, (words_of_assemble assembles).1⟩

end SourceText

end HackToolchain
