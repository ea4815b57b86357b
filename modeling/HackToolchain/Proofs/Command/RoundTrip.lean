import HackToolchain.Proofs.Command.Grammar
import HackToolchain.Proofs.Lowering.ReadBack
import HackToolchain.Proofs.Text.Pieces

/-! The canonical text of commands read back. A command whose names are words is the only one that
its line spells, and no other commands are ever read from a source. -/

namespace HackToolchain

/-! ### Words -/

namespace Text

/-- A text that no white space divides and no comment shortens. -/
structure Solid (word : List Char) : Prop where
  nonempty : word ≠ []
  unbroken : ∀ c ∈ word, isBlank c = false
  uncut : ¬ ['/', '/'] <:+: word

variable {word line : List Char}

theorem solid_of_plain (nonempty : word ≠ [])
    (plain : ∀ c ∈ word, c ≠ '/' ∧ isBlank c = false) : Solid word where
  nonempty := nonempty
  unbroken c inside := (plain c inside).2
  uncut pair := (plain '/' (pair.mem (by simp))).1 rfl

theorem Solid.feed_not_mem (h : Solid word) : '\n' ∉ word :=
  fun inside => absurd (h.unbroken '\n' inside) (by decide)

theorem Solid.words (h : Solid word) : words word = [word] := by
  rw [Text.words, List.splitOnP_eq_singleton h.unbroken]
  simp [h.nonempty]

theorem words_append_space (front back : List Char) :
    words (front ++ ' ' :: back) = words front ++ words back := by
  rw [words, List.splitOnP_append_cons front back (by decide), List.filter_append]
  rfl

/-- A comment does not start in a space. -/
theorem code_append_space (uncut : ¬ ['/', '/'] <:+: word) (rest : List Char) :
    code (word ++ ' ' :: rest) = word ++ ' ' :: code rest := by
  induction word with
  | nil => rw [List.nil_append, code_cons, if_neg (by simp), List.nil_append]
  | cons c word ih =>
    have inner : ¬ ['/', '/'] <:+: word :=
      fun pair => uncut (pair.trans (List.suffix_cons c word).isInfix)
    rw [List.cons_append, code_cons, if_neg, ih inner, List.cons_append]
    rintro ⟨rfl, next⟩
    cases word with
    | nil => simp at next
    | cons d word =>
      obtain rfl : d = '/' := by simpa using next
      exact uncut (List.prefix_append ['/', '/'] word).isInfix

/-- Solid words with one space between them are the words of the line that they make. -/
theorem words_code_intercalate {all : List String} (solid : ∀ word ∈ all, Solid word.toList) :
    words (code (" ".intercalate all).toList) = all.map String.toList := by
  induction all with
  | nil => rfl
  | cons word rest ih =>
    obtain ⟨here, later⟩ := List.forall_mem_cons.mp solid
    by_cases last : rest = []
    · rw [last, String.intercalate_singleton, code_eq_self here.uncut, here.words]
      rfl
    · have line : (" ".intercalate (word :: rest)).toList =
          word.toList ++ ' ' :: (" ".intercalate rest).toList := by
        rw [String.intercalate_cons_of_ne_nil last]
        simp
      rw [line, code_append_space here.uncut, words_append_space, here.words, ih later]
      rfl

theorem head?_of_head?_code {c : Char} (h : (code line).head? = some c) :
    line.head? = some c := by
  cases line with
  | nil => cases h
  | cons d line =>
    rw [code_cons] at h
    split at h
    · cases h
    · exact h

theorem uncut_code (line : List Char) : ¬ ['/', '/'] <:+: code line := by
  induction line with
  | nil => decide
  | cons c line ih =>
    rw [code_cons]
    split
    · decide
    · next apart =>
      intro pair
      rcases List.infix_cons_iff.mp pair with first | later
      · obtain ⟨rfl, second⟩ := List.cons_prefix_cons.mp first
        obtain ⟨rest, same⟩ := second
        exact apart ⟨rfl, head?_of_head?_code (by rw [← same]; rfl)⟩
      · exact ih later

theorem solid_iff : Solid word ↔ word ≠ [] ∧ word.all (! isBlank ·) ∧ code word = word := by
  constructor
  · intro h
    refine ⟨h.nonempty, ?_, code_eq_self h.uncut⟩
    rw [List.all_eq_true]
    exact fun c inside => by rw [h.unbroken c inside]; rfl
  · rintro ⟨nonempty, unbroken, whole⟩
    rw [List.all_eq_true] at unbroken
    refine ⟨nonempty, fun c inside => by simpa using unbroken c inside, ?_⟩
    rw [← whole]
    exact uncut_code word

instance : DecidablePred Solid := fun _ => decidable_of_iff _ solid_iff.symm

/-- The words before a comment are solid. -/
theorem solid_of_mem_words (h : word ∈ words (code line)) : Solid word := by
  obtain ⟨piece, some⟩ := List.mem_filter.mp h
  obtain ⟨first, rest, split, front, inside, free⟩ := exists_splitOnP isBlank (code line)
  rw [split] at piece
  have within : word <:+: code line := by
    rcases List.mem_cons.mp piece with rfl | later
    · exact front.isInfix
    · exact inside word later
  exact ⟨by simpa using some, free word piece, fun pair => uncut_code line (pair.trans within)⟩

/-! ### Numerals -/

theorem spelled_toString (n : Nat) : Spelled (toString n).toList n := by
  rw [Nat.toString_eq_repr, Nat.toList_repr]
  exact natural?_eq_some.mp (natural?_toDigits n)

theorem signedNumeral_toString (i : Int) : SignedNumeral (toString i).toList i := by
  cases i with
  | ofNat n => exact .plain (spelled_toString n)
  | negSucc n =>
    rw [toList_toString_negSucc]
    exact .minus (spelled_toString (n + 1))

theorem solid_toString (n : Nat) : Solid (toString n).toList :=
  solid_of_plain (spelled_toString n).1 fun c inside =>
    Line.plain_of_isSymbolChar (isSymbolChar_toString n c inside)

theorem solid_toString_int (i : Int) : Solid (toString i).toList := by
  cases i with
  | ofNat n => exact solid_toString n
  | negSucc n =>
    rw [toList_toString_negSucc]
    exact solid_of_plain (List.cons_ne_nil _ _) (List.forall_mem_cons.mpr ⟨by decide,
      fun c inside => Line.plain_of_isSymbolChar (isSymbolChar_toString (n + 1) c inside)⟩)

end Text

/-! ### Commands -/

theorem Operator.solid_mnemonic (op : Operator) : Text.Solid op.mnemonic.toList := by
  cases op <;> decide

theorem StackOp.solid_keyword (op : StackOp) : Text.Solid op.keyword.toList := by
  cases op <;> decide

theorem Segment.solid_name (segment : Segment) : Text.Solid segment.name.toList := by
  cases segment <;> decide

namespace Command

/-- The name in a command is a word, and an access belongs to a file. -/
def Printable (file : String) : Command → Prop
  | access _ _ _ written => written = file
  | label name | goto name | ifGoto name | function name _ | call name _ => Text.Solid name.toList
  | operator _ | ret => True

instance (file : String) : DecidablePred (Printable file) := fun c =>
  match c with
  | access _ _ _ written => inferInstanceAs (Decidable (written = file))
  | label name | goto name | ifGoto name | function name _ | call name _ =>
    inferInstanceAs (Decidable (Text.Solid name.toList))
  | operator _ | ret => inferInstanceAs (Decidable True)

variable {file : String} {c : Command} {commands : List Command} {source : String}

theorem Printable.solid (h : c.Printable file) : ∀ word ∈ c.words, Text.Solid word.toList := by
  cases c with
  | operator op => exact List.forall_mem_singleton.mpr op.solid_mnemonic
  | access op segment index written =>
    simp only [words, List.forall_mem_cons]
    exact ⟨op.solid_keyword, segment.solid_name, Text.solid_toString_int _, by simp⟩
  | label name | goto name | ifGoto name =>
    simp only [words, List.forall_mem_cons]
    exact ⟨by decide, h, by simp⟩
  | function name count | call name count =>
    simp only [words, List.forall_mem_cons]
    exact ⟨by decide, h, Text.solid_toString _, by simp⟩
  | ret => decide

/-- The words of a command spell it. -/
theorem Printable.spells (h : c.Printable file) : Spells file c.words c := by
  cases c with
  | operator op => exact .operator op
  | access op segment index written =>
    obtain rfl : written = file := h
    exact .access op segment (Text.signedNumeral_toString _)
  | label name => exact .label name
  | goto name => exact .goto name
  | ifGoto name => exact .ifGoto name
  | function name locals => exact .function (.plain (Text.spelled_toString _))
  | call name args => exact .call (.plain (Text.spelled_toString _))
  | ret => exact .ret

/-- What solid words spell is printable. -/
theorem Spells.printable {words : List String} (h : Spells file words c)
    (solid : ∀ word ∈ words, Text.Solid word.toList) : c.Printable file := by
  cases h with
  | access | ret | operator => trivial
  | label name | goto name | ifGoto name => exact solid name (by simp)
  | @function name | @call name => exact solid name (by simp)

/-! ### Lines -/

theorem Printable.feed_not_mem (h : c.Printable file) : '\n' ∉ c.text.toList :=
  feed_not_mem_intercalate fun word inside => (h.solid word inside).feed_not_mem

theorem lineWords_of_not_mem (h : '\n' ∉ source.toList) :
    lineWords source = [(Text.words (Text.code source.toList)).map String.ofList] := by
  rw [lineWords, List.splitOn_eq_singleton h, SourceText.code_eq_beforeComment]
  rfl

/-- The canonical text of a printable command is one line, with the words of the command. -/
theorem Printable.lineWords (h : c.Printable file) : lineWords c.text = [c.words] := by
  rw [lineWords_of_not_mem h.feed_not_mem, text, Text.words_code_intercalate h.solid]
  simp [Function.comp_def]

theorem lineWords_unlines (printable : ∀ c ∈ commands, c.Printable file) :
    lineWords (unlines (commands.map text)) = commands.map words ++ [[]] := by
  induction commands with
  | nil => rfl
  | cons c rest ih =>
    obtain ⟨here, later⟩ := List.forall_mem_cons.mp printable
    have text : unlines ((c :: rest).map text) = c.text ++ "\n" ++ unlines (rest.map text) := by
      simp [unlines, String.join_cons]
    rw [text, lineWords_append, here.lineWords, ih later]
    rfl

theorem lineWords_intercalate (printable : ∀ c ∈ commands, c.Printable file)
    (some : commands ≠ []) :
    lineWords ("\n".intercalate (commands.map text)) = commands.map words := by
  induction commands with
  | nil => contradiction
  | cons c rest ih =>
    obtain ⟨here, later⟩ := List.forall_mem_cons.mp printable
    by_cases last : rest = []
    · rw [last, List.map_singleton, String.intercalate_singleton, here.lineWords]
      rfl
    · rw [List.map_cons, String.intercalate_cons_of_ne_nil (by simpa using last),
        lineWords_append, here.lineWords, ih later last]
      rfl

theorem words_ne_nil (c : Command) : c.words ≠ [] := by
  cases c <;> exact List.cons_ne_nil _ _

theorem filter_map_words (commands : List Command) :
    (commands.map words).filter (! ·.isEmpty) = commands.map words := by
  rw [List.filter_eq_self, List.forall_mem_map]
  exact fun c _ => by simpa using c.words_ne_nil

/-- A source whose lines have the words of printable commands, if any, reads as the commands. -/
theorem parse_of_lineWords (printable : ∀ c ∈ commands, c.Printable file)
    (lines : (lineWords source).filter (! ·.isEmpty) = commands.map words) :
    parse source file = .ok commands := by
  rw [parse_eq_parseLines, parseLines_eq_ok, lines, List.forall₂_map_left_iff,
    List.forall₂_same]
  exact fun c inside => (printable c inside).spells

theorem parse_unlines (printable : ∀ c ∈ commands, c.Printable file) :
    parse (unlines (commands.map text)) file = .ok commands := by
  apply parse_of_lineWords printable
  rw [lineWords_unlines printable, List.filter_append, filter_map_words]
  exact List.append_nil _

theorem parse_intercalate (printable : ∀ c ∈ commands, c.Printable file) :
    parse ("\n".intercalate (commands.map text)) file = .ok commands := by
  by_cases none : commands = []
  · rw [none]
    rfl
  · apply parse_of_lineWords printable
    rw [lineWords_intercalate printable none, filter_map_words]

/-- Only printable commands are read. -/
theorem printable_of_parse (h : parse source file = .ok commands) :
    ∀ c ∈ commands, c.Printable file := by
  rw [parse_eq_parseLines, parseLines_eq_ok] at h
  intro c inside
  obtain ⟨words, line, spells⟩ := exists_of_mem_forall₂ h.flip inside
  obtain ⟨characters, -, rfl⟩ := List.mem_map.mp (List.mem_filter.mp line).1
  apply Spells.printable spells
  rw [List.forall_mem_map]
  intro word hWord
  rw [← SourceText.code_eq_beforeComment] at hWord
  rw [String.toList_ofList]
  exact Text.solid_of_mem_words hWord

/-- Printable commands, written one a line with or without a line feed after the last, are read
back as they are. The commands of any source are printable, so writing and reading them again
changes nothing. -/
theorem parse_text_eq (file : String) :
    (∀ commands : List Command, (∀ c ∈ commands, c.Printable file) →
      parse (unlines (commands.map text)) file = .ok commands ∧
        parse ("\n".intercalate (commands.map text)) file = .ok commands) ∧
    ∀ source commands, parse source file = .ok commands →
      (∀ c ∈ commands, c.Printable file) ∧
        parse (unlines (commands.map text)) file = .ok commands ∧
        parse ("\n".intercalate (commands.map text)) file = .ok commands := by
  have back : ∀ commands : List Command, (∀ c ∈ commands, c.Printable file) →
      parse (unlines (commands.map text)) file = .ok commands ∧
        parse ("\n".intercalate (commands.map text)) file = .ok commands :=
    fun commands printable => ⟨parse_unlines printable, parse_intercalate printable⟩
  refine ⟨back, fun source commands reads => ?_⟩
  have printable := printable_of_parse reads
  exact ⟨printable, back commands printable⟩

/-- Names with a slash at either end and names that are words of the language, with the least index
and the greatest count. -/
def oddCommands : List Command :=
  [label "a/", goto "/", ifGoto "push", function "return" 65535, call "é.1" 0,
    access .pop .constant (-2147483648) "F", access .push .staticVar 7 "F", operator .eq, ret]

theorem parse_text_eq_oddCommands :
    parse (unlines (oddCommands.map text)) "F" = .ok oddCommands ∧
    parse "label  x//y\n\n push that +07" "F" = .ok [label "x", access .push .that 7 "F"] ∧
    parse (unlines ([label "x", access .push .that 7 "F"].map text)) "F" =
      .ok [label "x", access .push .that 7 "F"] := by
  have reads : parse "label  x//y\n\n push that +07" "F" =
      .ok [label "x", access .push .that 7 "F"] := by
    rfl
  obtain ⟨back, again⟩ := parse_text_eq "F"
  exact ⟨(back oddCommands (by decide)).1, reads, (again _ _ reads).2.1⟩

end Command

end HackToolchain
