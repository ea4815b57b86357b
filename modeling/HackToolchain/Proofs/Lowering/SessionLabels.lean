import HackToolchain.Proofs.Lowering.Acceptance
import HackToolchain.Proofs.Lowering.LabelText
import Mathlib.Data.List.Nodup

/-! The labels that a session makes up never repeat, whatever it is asked for and whatever names
it is given. Every comparison, call and end marker takes a number, also one of a program that is
rejected at a later command, and the labels end in their numbers. -/

namespace HackToolchain.Session

/-! ### Requests to a session -/

/-- One block of a session. -/
inductive Step where
  | command (c : Command)
  | bootstrap
  | endProgram

namespace Step

def session : Step → Session Block
  | command c => Session.command c
  | bootstrap => Session.bootstrap
  | endProgram => Session.endProgram

def compares : Step → Bool
  | command (.operator op) => op ∈ [.eq, .gt, .lt]
  | _ => false

/-- The bootstrap code calls the entry function. -/
def calls : Step → Bool
  | command (.call ..) | bootstrap => true
  | _ => false

def ends : Step → Bool
  | endProgram => true
  | _ => false

def numbered (s : Step) : Bool := s.compares || s.calls || s.ends

/-- How many numbers a step takes up. -/
def taken (s : Step) : Nat := if s.numbered then 1 else 0

theorem taken_le (s : Step) : s.taken ≤ 1 := by
  rw [taken]
  split <;> decide

/-- How many labels lowering makes up for a step. -/
def labelCount (s : Step) : Nat := if s.compares then 2 else if s.numbered then 1 else 0

end Step

/-- A step that has made its block. -/
structure Product where
  step : Step
  block : Block

namespace Product

/-- The labels that the block declares, other than the name that a declaration gives. -/
def synthesized (p : Product) : List String :=
  match p.step with
  | .command (.label _) | .command (.function ..) => []
  | _ => Lines.declared p.block.body

def returnLabels (p : Product) : List String := if p.step.calls then p.synthesized else []

end Product

/-- The blocks that steps make, up to the first step that is rejected. -/
def trace (number : Nat) : List Step → List Product
  | [] => []
  | s :: rest =>
    match s.session.run.run number with
    | (.ok block, next) => ⟨s, block⟩ :: trace next rest
    | (.error _, _) => []

/-- A session is asked for single blocks and for whole programs. -/
inductive Request where
  | step (s : Step)
  | program (commands : List Command) (options : Options)

namespace Request

def session : Request → Session (List Block)
  | step s => List.singleton <$> s.session
  | program commands options => Program.blocks <$> Session.program commands options

def steps : Request → List Step
  | step s => [s]
  | program commands options =>
    (if options.bootstrap then [.bootstrap] else []) ++ commands.map .command ++
      (if options.terminate then [.endProgram] else [])

/-- The count of a session after a request, accepted or rejected. -/
def next (number : Nat) (r : Request) : Nat := (r.session.run.run number).2

end Request

/-- The count of a session after some requests. -/
def issued (number : Nat) (requests : List Request) : Nat := requests.foldl Request.next number

/-- All blocks that a session has made, also those that no answer holds because their program was
rejected later. -/
def history : Nat → List Request → List Product
  | _, [] => []
  | number, r :: rest => trace number r.steps ++ history (r.next number) rest

/-! ### One step -/

namespace Step

variable {s : Step} {number : Nat} {block : Block}

/-- The block of a step under its number. -/
def make (number : Nat) : Step → Except Defect Block
  | command c => c.block number
  | bootstrap => .ok ⟨"bootstrap", Lowering.bootstrap number⟩
  | endProgram => .ok ⟨"end program", Lowering.endLoop number⟩

theorem run_session (s : Step) (number : Nat) : s.session.run.run number =
    if number + s.taken < limit then (s.make number, number + s.taken)
    else (.error .numbersSpent, number) := by
  cases s with
  | command c =>
    cases c with
    | operator op => cases op <;> rfl
    | access | label | goto | ifGoto | function | call | ret => rfl
  | bootstrap => rfl
  | endProgram => rfl

/-- Only accesses are rejected, and they need no number. -/
theorem numbered_of_error {defect : Defect} (h : s.make number = .error defect) :
    s.numbered = false := by
  cases s with
  | command c =>
    cases c with
    | access => rfl
    | operator | label | goto | ifGoto | function | call | ret => cases h
  | bootstrap => cases h
  | endProgram => cases h

/-- A step makes its block and takes its number; else it is rejected, or there is no number left,
and the count stays as it is. -/
theorem run_cases (s : Step) (number : Nat) :
    (∃ block, s.make number = .ok block ∧ number + s.taken < limit ∧
      s.session.run.run number = (.ok block, number + s.taken)) ∨
    ∃ defect, s.session.run.run number = (.error defect, number) ∧
      (s.make number = .error defect ∨ defect = .numbersSpent ∧ limit ≤ number + s.taken) := by
  rw [run_session]
  split
  · next room =>
    cases made : s.make number with
    | ok block => exact .inl ⟨block, rfl, room, rfl⟩
    | error defect =>
      have none : s.taken = 0 := by rw [taken, numbered_of_error made, if_neg Bool.false_ne_true]
      rw [none]
      exact .inr ⟨defect, rfl, .inl rfl⟩
  · next full => exact .inr ⟨_, rfl, .inr ⟨rfl, Nat.le_of_not_lt full⟩⟩

/-- The labels that lowering makes up for a step under its number. -/
def labels (number : Nat) : Step → List String
  | command (.label _) | command (.function ..) => []
  | command c => c.labels number
  | bootstrap => [Lowering.returnLabel Platform.entryFunction number]
  | endProgram => [Lowering.endLabel number]

theorem synthesized_of_make (h : s.make number = .ok block) :
    Product.synthesized ⟨s, block⟩ = s.labels number := by
  cases s with
  | command c =>
    have declared := Command.declared_fragment (Command.block_eq_ok.mp h).1
    cases c with
    | label | function => rfl
    | operator | access | goto | ifGoto | call | ret => exact declared
  | bootstrap =>
    cases h
    rfl
  | endProgram =>
    cases h
    rfl

theorem length_labels (s : Step) (number : Nat) : (s.labels number).length = s.labelCount := by
  cases s with
  | command c =>
    cases c with
    | operator op => cases op <;> rfl
    | access | label | goto | ifGoto | function | call | ret => rfl
  | bootstrap => rfl
  | endProgram => rfl

theorem number?_of_labels {label : String} (h : label ∈ s.labels number) :
    Lowering.number? label = some number := by
  have compared : ∀ c : Lowering.Comparison,
      label ∈ [c.branchLabel number, c.endLabel number] → Lowering.number? label = some number := by
    intro c either
    rcases List.mem_pair.mp either with rfl | rfl
    · exact Lowering.number?_numbered c.branchStem number
    · exact Lowering.number?_numbered c.endStem number
  cases s with
  | command c =>
    cases c with
    | operator op =>
      cases op with
      | eq | gt | lt => exact compared _ h
      | add | sub | neg | and | or | not => cases h
    | call name args =>
      rw [List.mem_singleton.mp h]
      exact Lowering.number?_returnLabel name number
    | access | label | goto | ifGoto | function | ret => cases h
  | bootstrap =>
    rw [List.mem_singleton.mp h]
    exact Lowering.number?_returnLabel Platform.entryFunction number
  | endProgram =>
    rw [List.mem_singleton.mp h]
    exact Lowering.number?_numbered "END_PROGRAM" number

theorem nodup_labels (s : Step) (number : Nat) : (s.labels number).Nodup := by
  have compared : ∀ c : Lowering.Comparison, c.branchStem ≠ c.endStem →
      [c.branchLabel number, c.endLabel number].Nodup := by
    intro c differ
    refine List.nodup_cons.mpr ⟨?_, List.nodup_singleton _⟩
    intro inside
    exact differ (Lowering.numbered_injective (List.mem_singleton.mp inside))
  cases s with
  | command c =>
    cases c with
    | operator op =>
      cases op with
      | eq => exact compared .equal (by decide)
      | gt => exact compared .greater (by decide)
      | lt => exact compared .less (by decide)
      | add | sub | neg | and | or | not => exact List.nodup_nil
    | call => exact List.nodup_singleton _
    | access | label | goto | ifGoto | function | ret => exact List.nodup_nil
  | bootstrap => exact List.nodup_singleton _
  | endProgram => exact List.nodup_singleton _

end Step

/-! ### Any number of steps -/

/-- What holds of all blocks that a session has made while its count went from one number to
another. -/
structure Span (products : List Product) (start stop : Nat) : Prop where
  count : stop = start + products.countP (·.step.numbered)
  lengths : products.map (·.synthesized.length) = products.map (·.step.labelCount)
  range : ∀ label ∈ products.flatMap Product.synthesized,
    ∃ number, Lowering.number? label = some number ∧ start ≤ number ∧ number < stop
  nodup : (products.flatMap Product.synthesized).Nodup
  returns : ∀ label ∈ products.flatMap Product.returnLabels,
    ∃ callee number, label = Lowering.returnLabel callee number

theorem span_nil (number : Nat) : Span [] number number where
  count := rfl
  lengths := rfl
  range := by simp
  nodup := List.nodup_nil
  returns := by simp

/-- The labels of later blocks have greater numbers. -/
theorem Span.append {front back : List Product} {start mid stop : Nat}
    (before : Span front start mid) (after : Span back mid stop) :
    Span (front ++ back) start stop where
  count := by
    rw [after.count, before.count, List.countP_append]
    omega
  lengths := by rw [List.map_append, List.map_append, before.lengths, after.lengths]
  range := by
    have up := before.count
    have further := after.count
    rw [List.flatMap_append, List.forall_mem_append]
    constructor
    · intro label inside
      obtain ⟨number, same, least, most⟩ := before.range label inside
      exact ⟨number, same, least, by omega⟩
    · intro label inside
      obtain ⟨number, same, least, most⟩ := after.range label inside
      exact ⟨number, same, by omega, most⟩
  nodup := by
    rw [List.flatMap_append]
    apply List.Nodup.append before.nodup after.nodup
    -- A label on both sides would end in a number below `mid` and in one that is not.
    intro label inside again
    obtain ⟨number, same, -, most⟩ := before.range label inside
    obtain ⟨other, sameOther, least, -⟩ := after.range label again
    have equal : number = other := Option.some.inj (same.symm.trans sameOther)
    omega
  returns := by
    rw [List.flatMap_append, List.forall_mem_append]
    exact ⟨before.returns, after.returns⟩

theorem Step.returnLabels_of_make {s : Step} {number : Nat} {block : Block}
    (h : s.make number = .ok block) : ∀ label ∈ Product.returnLabels ⟨s, block⟩,
      ∃ callee, label = Lowering.returnLabel callee number := by
  have synthesized := synthesized_of_make h
  unfold Product.returnLabels
  rw [synthesized]
  cases s with
  | command c =>
    cases c with
    | call name args =>
      intro label inside
      exact ⟨name, List.mem_singleton.mp inside⟩
    | operator | access | label | goto | ifGoto | function | ret => simp [calls]
  | bootstrap =>
    intro label inside
    exact ⟨Platform.entryFunction, List.mem_singleton.mp inside⟩
  | endProgram => simp [calls]

theorem Step.span_of_make {s : Step} {number : Nat} {block : Block}
    (h : s.make number = .ok block) : Span [⟨s, block⟩] number (number + s.taken) := by
  have synthesized := synthesized_of_make h
  have length := length_labels s number
  constructor
  · rw [List.countP_singleton, taken]
  · rw [List.map_singleton, List.map_singleton, synthesized, length]
  · intro label inside
    rw [List.flatMap_singleton, synthesized] at inside
    have some : 0 < s.labelCount := length ▸ List.length_pos_of_mem inside
    have numbered : s.numbered = true := by
      unfold labelCount at some
      split at some
      · next compares => simp [Step.numbered, compares]
      · split at some
        · assumption
        · omega
    refine ⟨number, number?_of_labels inside, le_refl number, ?_⟩
    rw [taken, if_pos numbered]
    exact Nat.lt_succ_self number
  · rw [List.flatMap_singleton, synthesized]
    exact nodup_labels s number
  · rw [List.flatMap_singleton]
    intro label inside
    obtain ⟨callee, same⟩ := returnLabels_of_make h label inside
    exact ⟨callee, number, same⟩

theorem run_mapM_of_ok {s : Step} {number next : Nat} {block : Block}
    (h : s.session.run.run number = (.ok block, next)) (rest : List Step) :
    ((s :: rest).mapM Step.session).run.run number =
      (((rest.mapM Step.session).run.run next).1.map (block :: ·),
        ((rest.mapM Step.session).run.run next).2) := by
  rw [List.mapM_cons, ExceptT.run_bind, StateT.run_bind, h]
  show (rest.mapM Step.session >>= fun later => pure (block :: later)).run.run _ = _
  rw [ExceptT.run_bind, StateT.run_bind]
  generalize (rest.mapM Step.session).run.run next = outcome
  obtain ⟨answer, after⟩ := outcome
  cases answer <;> rfl

theorem run_mapM_of_error {s : Step} {number next : Nat} {defect : Defect}
    (h : s.session.run.run number = (.error defect, next)) (rest : List Step) :
    ((s :: rest).mapM Step.session).run.run number = (.error defect, next) := by
  rw [List.mapM_cons, ExceptT.run_bind, StateT.run_bind, h]
  rfl

/-- The steps of a program are made one after the other, until one is rejected. -/
theorem span_trace (steps : List Step) (number : Nat) :
    Span (trace number steps) number ((steps.mapM Step.session).run.run number).2 := by
  induction steps generalizing number with
  | nil => exact span_nil number
  | cons s rest ih =>
    rcases s.run_cases number with ⟨block, made, -, run⟩ | ⟨defect, run, -⟩
    · rw [run_mapM_of_ok run, trace, run]
      exact (Step.span_of_make made).append (ih _)
    · rw [run_mapM_of_error run, trace, run]
      exact span_nil number

/-- Steps that all succeed have found room for the first of them and for the others. -/
theorem exists_of_mapM_cons {s : Step} {rest : List Step} {number : Nat} {blocks : List Block}
    (h : (((s :: rest).mapM Step.session).run.run number).1 = .ok blocks) :
    ∃ block later, s.make number = .ok block ∧ number + s.taken < limit ∧
      s.session.run.run number = (.ok block, number + s.taken) ∧
      ((rest.mapM Step.session).run.run (number + s.taken)).1 = .ok later ∧
      blocks = block :: later := by
  rcases s.run_cases number with ⟨block, made, room, run⟩ | ⟨defect, run, -⟩
  · rw [run_mapM_of_ok run] at h
    obtain ⟨later, answered, rfl⟩ := Except.map_eq_ok.mp h
    exact ⟨block, later, made, room, run, answered, rfl⟩
  · rw [run_mapM_of_error run] at h
    cases h

/-- Steps that all succeed answer the blocks of their trace. -/
theorem blocks_of_mapM {steps : List Step} {number : Nat} {blocks : List Block}
    (h : ((steps.mapM Step.session).run.run number).1 = .ok blocks) :
    blocks = (trace number steps).map Product.block := by
  induction steps generalizing number blocks with
  | nil =>
    cases h
    rfl
  | cons s rest ih =>
    obtain ⟨block, later, -, -, run, answered, rfl⟩ := exists_of_mapM_cons h
    rw [trace, run, ih answered]
    rfl

/-- Steps of which none is ever rejected succeed, unless the session runs out of numbers. -/
theorem run_mapM_of_make {steps : List Step}
    (h : ∀ s ∈ steps, ∀ number, ∃ block, s.make number = .ok block) (number : Nat) :
    (∃ blocks, (steps.mapM Step.session).run.run number =
      (.ok blocks, number + steps.countP Step.numbered)) ∨
    limit ≤ number + steps.countP Step.numbered ∧ (steps.mapM Step.session).run.run number =
      (.error .numbersSpent, max number (limit - 1)) := by
  induction steps generalizing number with
  | nil => exact .inl ⟨[], rfl⟩
  | cons s rest ih =>
    obtain ⟨here, later⟩ := List.forall_mem_cons.mp h
    have count : number + (s :: rest).countP Step.numbered =
        number + s.taken + rest.countP Step.numbered := by
      rw [List.countP_cons, Step.taken]
      omega
    rw [count]
    rcases s.run_cases number with ⟨block, -, room, run⟩ | ⟨defect, run, stops⟩
    · rw [run_mapM_of_ok run]
      rcases ih later (number + s.taken) with ⟨blocks, runs⟩ | ⟨full, runs⟩
      · rw [runs]
        exact .inl ⟨block :: blocks, rfl⟩
      · have last : max (number + s.taken) (limit - 1) = max number (limit - 1) := by omega
        rw [runs, last]
        exact .inr ⟨full, rfl⟩
    · have one := s.taken_le
      obtain ⟨block, made⟩ := here number
      obtain ⟨rfl, full⟩ := stops.resolve_left (by simp [made])
      have last : max number (limit - 1) = number := by omega
      rw [run_mapM_of_error run, last]
      exact .inr ⟨by omega, rfl⟩

theorem mem_of_mem_trace {steps : List Step} {number : Nat} {p : Product}
    (h : p ∈ trace number steps) : p.step ∈ steps := by
  induction steps generalizing number with
  | nil => cases h
  | cons s rest ih =>
    rw [trace] at h
    rcases s.run_cases number with ⟨block, -, -, run⟩ | ⟨defect, run, -⟩
    · rw [run] at h
      rcases List.mem_cons.mp h with rfl | later
      · exact List.mem_cons_self ..
      · exact List.mem_cons_of_mem _ (ih later)
    · rw [run] at h
      cases h

/-! ### Any number of requests -/

theorem singleton_session (s : Step) :
    List.singleton <$> s.session = [s].mapM Step.session := by
  rw [List.mapM_cons, List.mapM_nil, map_eq_pure_bind]
  rfl

/-- A program is made step by step, as single blocks are. -/
theorem session_eq_mapM (r : Request) : r.session = r.steps.mapM Step.session := by
  cases r with
  | step s => exact singleton_session s
  | program commands options =>
    have front : first options =
        (if options.bootstrap then [Step.bootstrap] else []).mapM Step.session := by
      unfold first
      split
      · exact singleton_session .bootstrap
      · rfl
    have back : last options =
        (if options.terminate then [Step.endProgram] else []).mapM Step.session := by
      unfold last
      split
      · exact singleton_session .endProgram
      · rfl
    have middle : commands.mapM Session.command =
        (commands.map Step.command).mapM Step.session := by
      rw [List.mapM_map]
      rfl
    rw [Request.session, Request.steps, program, List.mapM_append, List.mapM_append, front, back,
      middle]
    simp only [map_bind, map_pure, bind_assoc, pure_bind]

theorem map_blocks_program (commands : List Command) (options : Options) (number : Nat) :
    ((program commands options).run.run number).1.map Program.blocks =
      (((Request.program commands options).steps.mapM Step.session).run.run number).1 := by
  rw [← session_eq_mapM, Request.session, ExceptT.run_map, StateT.run_map]
  rfl

theorem map_blocks_ofCommands (commands : List Command) (options : Options) :
    (Program.ofCommands commands options).map Program.blocks =
      (((Request.program commands options).steps.mapM Step.session).run.run 0).1 :=
  map_blocks_program commands options 0

theorem run_step (s : Step) (number : Nat) : (Request.step s).session.run.run number =
    ((s.session.run.run number).1.map List.singleton, (s.session.run.run number).2) := by
  rw [Request.session, ExceptT.run_map, StateT.run_map]
  rfl

theorem next_step (s : Step) (number : Nat) :
    (Request.step s).next number = (s.session.run.run number).2 := by
  rw [Request.next, run_step]

theorem span_history (requests : List Request) (number : Nat) :
    Span (history number requests) number (issued number requests) := by
  induction requests generalizing number with
  | nil => exact span_nil number
  | cons r rest ih =>
    have here := span_trace r.steps number
    rw [← session_eq_mapM] at here
    exact here.append (ih (r.next number))

/-- The labels that a session makes up are distinct, and none is the label of a declaration if it is
a return label. The count of a session is the number of comparisons, calls and end markers that it
has made; the blocks of a request that succeeds are those that it has made for it. -/
theorem nodup_synthesized (requests : List Request) :
    ((history 0 requests).flatMap Product.synthesized).Nodup ∧
    (history 0 requests).map (·.synthesized.length) =
      (history 0 requests).map (·.step.labelCount) ∧
    issued 0 requests = (history 0 requests).countP (·.step.numbered) ∧
    (∀ op segment index file number,
      (Request.step (.command (.access op segment index file))).next number = number) ∧
    (∀ name, (Lines.declared (Lowering.label name)).Disjoint
      ((history 0 requests).flatMap Product.returnLabels)) ∧
    ∀ (r : Request) number blocks, (r.session.run.run number).1 = .ok blocks →
      blocks = (trace number r.steps).map Product.block := by
  have span := span_history requests 0
  refine ⟨span.nodup, span.lengths, ?_, ?_, ?_, ?_⟩
  · rw [span.count, Nat.zero_add]
  · intro op segment index file number
    rw [next_step]
    rcases Step.run_cases (.command (.access op segment index file)) number with
      ⟨block, -, -, run⟩ | ⟨defect, run, -⟩
    · rw [run]
      rfl
    · rw [run]
  · intro name label declared returned
    obtain ⟨callee, number, rfl⟩ := span.returns label returned
    have same := List.mem_singleton.mp declared
    exact Lowering.upper_ne_returnLabel name callee number same.symm
  · intro r number blocks answered
    rw [session_eq_mapM] at answered
    exact blocks_of_mapM answered

/-- Names that look like made-up labels, and a program that is rejected at its second command. -/
def misleadingRequests : List Request :=
  [.step (.command (.call "f" 0)), .step (.command (.call "f$ret.0" 0)),
    .program [.operator .eq, .access .pop .constant 0 "F"] {}, .step .endProgram]

theorem nodup_synthesized_misleadingRequests :
    (history 0 misleadingRequests).flatMap Product.synthesized =
      ["f$ret.0", "f$ret.0$ret.1", "NOT_EQUAL_2", "END_EQUAL_2", "END_PROGRAM_3"] ∧
    ((history 0 misleadingRequests).flatMap Product.synthesized).Nodup ∧
    (history 0 misleadingRequests).countP (·.step.numbered) = 4 ∧
    (trace 2 [.endProgram]).map Product.block = [⟨"end program", Lowering.endLoop 2⟩] := by
  obtain ⟨nodup, -, count, -, -, answers⟩ := nodup_synthesized misleadingRequests
  have issued : issued 0 misleadingRequests = 4 := by decide
  exact ⟨by decide, nodup, count.symm.trans issued, (answers (.step .endProgram) 2 _ rfl).symm⟩

end HackToolchain.Session
