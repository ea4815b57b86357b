import HackToolchain.Proofs.Lowering.BlockAddresses

/-! What the blocks of calls and returns read as. The name of a call stands in a line that refers to
it and in a line that declares a label. White space in the name is left out of both, and no name
with a comment or a line of its own is read in both. -/

namespace HackToolchain

/-! ### Comments inside of a line -/

namespace Text

/-- A comment in the front part of a line hides the rest of the line. -/
theorem code_append (front : List Char) {rest : List Char} (slash : '/' ∉ rest) :
    code (front ++ rest) = if code front = front then front ++ rest else code front := by
  induction front with
  | nil => exact code_eq_self fun inside => slash (inside.mem (by simp))
  | cons c front ih =>
    have next : (front ++ rest).head? = some '/' ↔ front.head? = some '/' := by
      cases front with
      | nil =>
        constructor
        · intro first
          exact absurd (List.mem_of_head? first) slash
        · simp
      | cons d front => simp
    rw [List.cons_append, code_cons, code_cons]
    by_cases comment : c = '/' ∧ front.head? = some '/'
    · rw [if_pos comment, if_pos ⟨comment.1, next.mpr comment.2⟩, if_neg (by simp)]
    · rw [if_neg comment, if_neg fun both => comment ⟨both.1, next.mp both.2⟩, ih]
      by_cases plain : code front = front
      · rw [if_pos plain, if_pos (congrArg (c :: ·) plain)]
      · rw [if_neg plain, if_neg fun same => plain (List.cons.inj same).2]

/-- A character that starts a line and survives its cleaning. -/
def isMark (c : Char) : Bool := c ≠ '/' && ! isBlank c

theorem clean_cons {mark : Char} (visible : isMark mark) (rest : List Char) :
    clean (mark :: rest) = mark :: clean rest := by
  rw [isMark, Bool.and_eq_true, decide_eq_true_eq, Bool.not_eq_true'] at visible
  rw [clean, code_cons, if_neg fun both => visible.1 both.1, unspaced, List.filter_cons_of_pos]
  · rfl
  · rw [visible.2]
    rfl

theorem cleanLines_cons {mark : Char} (visible : isMark mark) {rest : List Char}
    (single : '\n' ∉ rest) : cleanLines (mark :: rest) = [mark :: clean rest] := by
  have feed : mark ≠ '\n' := by
    rintro rfl
    contradiction
  rw [cleanLines_of_not_mem (by simp [single, feed.symm]), clean_cons visible, if_neg (by simp)]

theorem clean_append {front rest : List Char} (plain : code front = front) (slash : '/' ∉ rest) :
    clean (front ++ rest) = unspaced front ++ unspaced rest := by
  rw [clean, code_append front slash, if_pos plain, unspaced_append]

end Text

/-! ### Lines with the name of a call -/

/-- A text that some lines are made of reads if all its pieces do. -/
def Readable (text : List Char) : Prop :=
  ∀ piece ∈ Text.cleanLines text, ∃ line, Line.read piece = .ok line

theorem not_read_address_and_label {operand : List Char} {first second : Line}
    (address : Line.read ('@' :: operand) = .ok first)
    (label : Line.read ('(' :: operand) = .ok second) : False := by
  obtain ⟨name, same, -⟩ := Line.read_label.mp label
  have closing : ')' ∈ operand := by simp [same]
  obtain ⟨o, reads, -⟩ := Line.read_address.mp address
  rcases Operand.read_eq_ok.mp reads with ⟨value, -, found, -⟩ | ⟨other, -, isName, -⟩
  · rw [Text.natural?] at found
    split at found
    · next digits => exact absurd (List.all_eq_true.mp digits.2 _ closing) (by decide)
    · cases found
  · exact absurd (isSymbol_all isName _ closing) (by decide)

section

variable {name rest : List Char}

/-- A name that is read after an at sign and in a label has no line feed and no comment. -/
theorem plain_of_readable (address : Readable ('@' :: name))
    (label : Readable ('(' :: (name ++ rest))) (feed : '\n' ∉ rest) (slash : '/' ∉ rest) :
    '\n' ∉ name ∧ Text.code name = name := by
  have single : '\n' ∉ name := by
    intro inside
    obtain ⟨front, back, rfl, first⟩ := List.eq_append_cons_of_mem inside
    rw [List.append_assoc, List.cons_append, ← List.cons_append] at label
    rw [← List.cons_append] at address
    rw [Readable, Text.cleanLines_append, Text.cleanLines_cons (by decide) first] at address label
    obtain ⟨_, reads⟩ := address _ (List.mem_append_left _ (List.mem_singleton_self _))
    obtain ⟨_, declares⟩ := label _ (List.mem_append_left _ (List.mem_singleton_self _))
    exact not_read_address_and_label reads declares
  refine ⟨single, by_contra fun comment => ?_⟩
  rw [Readable, Text.cleanLines_cons (by decide) single] at address
  rw [Readable, Text.cleanLines_cons (by decide) (by simp [single, feed]), Text.clean,
    Text.code_append name slash, if_neg comment] at label
  obtain ⟨_, reads⟩ := address _ (List.mem_singleton_self _)
  obtain ⟨_, declares⟩ := label _ (List.mem_singleton_self _)
  exact not_read_address_and_label reads declares

end

namespace Lowering

/-- The name that is read for a name: white space is left out. -/
def spelled (name : String) : String := String.ofList (Text.unspaced name.toList)

theorem cleanLines_named (mark : Char) (visible : Text.isMark mark) {name : String}
    {rest : List Char} (single : '\n' ∉ name.toList) (plain : Text.code name.toList = name.toList)
    (solid : ∀ c ∈ rest, c ≠ '/' ∧ Text.isBlank c = false) :
    Text.cleanLines (mark :: (name.toList ++ rest)) =
      [mark :: ((spelled name).toList ++ rest)] := by
  have feed : '\n' ∉ rest := fun inside => absurd (solid _ inside).2 (by decide)
  have slash : '/' ∉ rest := fun inside => (solid _ inside).1 rfl
  rw [Text.cleanLines_cons visible (by simp [single, feed]), Text.clean_append plain slash,
    Text.unspaced_eq_self fun c hc => (solid c hc).2, spelled, String.toList_ofList]

/-- The end of the label that a call returns to. -/
def returnMark (number : Nat) : List Char := "$ret.".toList ++ (toString number).toList

theorem isSymbolChar_returnMark (number : Nat) : ∀ c ∈ returnMark number, isSymbolChar c :=
  List.forall_mem_append.mpr ⟨List.all_eq_true.mp (by decide), isSymbolChar_toString number⟩

theorem toList_returnLabel (name : String) (number : Nat) :
    (returnLabel name number).toList = name.toList ++ returnMark number := by
  rw [returnLabel, String.toList_append, String.toList_append, List.append_assoc, returnMark]

end Lowering

open Lowering

theorem readable_of_readSource {block : Block} {lines : List Line}
    (reads : readSource block.text = .ok lines) : ∀ line ∈ block.lines, Readable line.toList := by
  intro line inside piece hPiece
  rw [readSource, Block.text, cleanLines_unlines] at reads
  exact exists_mapM_eq_ok.mp ⟨_, reads⟩ piece (List.mem_flatMap.mpr ⟨line, inside, hPiece⟩)

/-- The name of a call that is read is a symbol when it is spelled without its white space. -/
theorem isSymbol_spelled {name : String} {number : Nat} {first second : Line}
    (address : Line.read ('@' :: (spelled name).toList) = .ok first)
    (label : Line.read ('(' :: ((spelled name).toList ++ (returnMark number ++ [')']))) =
      .ok second) : isSymbol (spelled name).toList := by
  obtain ⟨declared, same, isName, -⟩ := Line.read_label.mp label
  rw [← List.append_assoc, List.append_cancel_right_eq] at same
  obtain ⟨o, reads, -⟩ := Line.read_address.mp address
  rcases Operand.read_eq_ok.mp reads with ⟨value, -, found, -⟩ | ⟨other, -, isOther, -⟩
  · obtain ⟨c, rest, split, digit⟩ := natural?_head found
    rw [← same, split, List.cons_append] at isName
    rw [isSymbol_head isName] at digit
    contradiction
  · exact isOther

/-- The block of a call that is read reads as the lines of a call of a symbol. -/
theorem read_call {block : Block} {name : String} {args number : Nat} {lines : List Line}
    (body : block.body = call name args number)
    (titled : '\n' ∉ name.toList → '\n' ∉ block.title.toList)
    (reads : readSource block.text = .ok lines) :
    isSymbol (spelled name).toList ∧ lines = call (spelled name) args number := by
  have readable : ∀ line ∈ call name args number, Readable line.text.toList := by
    intro line inside
    apply readable_of_readSource reads
    simp only [Block.lines, List.mem_append, List.mem_cons, List.mem_map]
    exact .inl (.inr ⟨line, body ▸ inside, rfl⟩)
  have address := readable (symbol name) (by simp [call])
  have label := readable (.label (returnLabel name number)) (by simp [call])
  have solid : ∀ c ∈ returnMark number, c ≠ '/' ∧ Text.isBlank c = false := fun c hc =>
    Line.plain_of_isSymbolChar (isSymbolChar_returnMark number c hc)
  have solidLabel : ∀ c ∈ returnMark number ++ [')'], c ≠ '/' ∧ Text.isBlank c = false :=
    List.forall_mem_append.mpr ⟨solid, List.forall_mem_singleton.mpr (by decide)⟩
  rw [symbol, Line.toList_text_symbol] at address
  rw [Line.toList_text_label, toList_returnLabel, List.append_assoc] at label
  obtain ⟨single, plain⟩ := plain_of_readable address label
    (fun inside => absurd (solidLabel _ inside).2 (by decide))
    (fun inside => (solidLabel _ inside).1 rfl)
  have addressLine : Text.cleanLines ('@' :: name.toList) = ['@' :: (spelled name).toList] := by
    have whole := cleanLines_named '@' (by decide) single plain (List.forall_mem_nil _)
    rwa [List.append_nil, List.append_nil] at whole
  have labelLine := cleanLines_named '(' (by decide) single plain solidLabel
  have backLine := cleanLines_named '@' (by decide) single plain solid
  have isName : isSymbol (spelled name).toList := by
    rw [Readable, addressLine] at address
    rw [Readable, labelLine] at label
    obtain ⟨_, reads⟩ := address _ (List.mem_singleton_self _)
    obtain ⟨_, declares⟩ := label _ (List.mem_singleton_self _)
    exact isSymbol_spelled reads declares
  have jumpLine : Text.cleanLines (jump "0" "JMP").text.toList = [(jump "0" "JMP").text.toList] :=
    (show (jump "0" "JMP").WellSpelled by decide).plain.cleanLines
  have clean : ((call name args number).flatMap fun line => Text.cleanLines line.text.toList) =
      (call (spelled name) args number).map fun line => line.text.toList := by
    simp only [call_eq, List.cons_append, List.flatMap_cons, List.flatMap_append,
      List.flatMap_nil, List.map_cons, List.map_append, List.map_nil, jumpLine,
      Block.cleanLines_wellSpelled (wellSpelled_setup args)]
    simp only [symbol, Line.toList_text_symbol, Line.toList_text_label, toList_returnLabel,
      List.append_assoc, addressLine, labelLine, backLine, List.cons_append, List.nil_append]
  rw [readSource, Block.text, cleanLines_unlines, Block.cleanLines_lines (titled single), body,
    clean] at reads
  exact ⟨isName, ((mapM_read_text (wellSpelled_call args number isName)).mp reads).1⟩

end HackToolchain
