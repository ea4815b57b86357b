import HackToolchain.Proofs.Lowering.Accesses
import HackToolchain.Proofs.Lowering.SessionLabels

/-! Programs and single commands in one session. A program is made of the blocks that its steps
would answer one by one, so it may be translated in two parts. It fails at its first rejected
command, for what is wrong with this command, and keeps the numbers taken before it; or it stops
where its session has no number left. A rejected command leaves no mark on a session. -/

namespace HackToolchain

/-! ### Rejected commands -/

namespace Command

/-- What a command is rejected for. Only accesses are rejected, and a negative index is reported
before anything else. -/
inductive RejectedFor : Command → Defect → Prop
  | negative {op : StackOp} {segment : Segment} {index : Int32} {file : String}
      (below : index.toInt < 0) :
      RejectedFor (access op segment index file) (.negativeIndex segment index)
  | temp {op : StackOp} {index : Int32} {file : String} (beyond : 7 < index.toInt) :
      RejectedFor (access op .temp index file) (.tempIndex index)
  | pointer {op : StackOp} {index : Int32} {file : String} (beyond : 1 < index.toInt) :
      RejectedFor (access op .pointer index file) (.pointerIndex index)
  | constant {index : Int32} {file : String} (positive : 0 ≤ index.toInt) :
      RejectedFor (access .pop .constant index file) .popConstant

/-- The index of an access lies in its segment, and a constant is only pushed. -/
def Acceptable : Command → Prop
  | access op segment index _ =>
    0 ≤ index.toInt ∧ (segment = .temp → index.toInt ≤ 7) ∧
      (segment = .pointer → index.toInt ≤ 1) ∧ ¬ (op = .pop ∧ segment = .constant)
  | _ => True

instance : DecidablePred Acceptable
  | access op segment index _ => inferInstanceAs (Decidable
    (0 ≤ index.toInt ∧ (segment = .temp → index.toInt ≤ 7) ∧
      (segment = .pointer → index.toInt ≤ 1) ∧ ¬ (op = .pop ∧ segment = .constant)))
  | operator _ | label _ | goto _ | ifGoto _ | function .. | call .. | ret => .isTrue trivial

end Command

namespace Lowering

variable {op : StackOp} {segment : Segment} {index : Int32} {file : String} {defect : Defect}

theorem Location.find_eq_error : find segment index file = .error defect ↔
    index.toInt < 0 ∧ defect = .negativeIndex segment index ∨
      0 ≤ index.toInt ∧ ofIndex segment index file = .error defect := by
  rw [find]
  split
  · next below =>
    have : ¬ 0 ≤ index.toInt := by omega
    simp [below, this, eq_comm]
  · next positive =>
    have : 0 ≤ index.toInt := by omega
    simp [positive, this]

theorem Location.ofIndex_eq_error (positive : 0 ≤ index.toInt) :
    ofIndex segment index file = .error defect ↔
      segment = .temp ∧ 7 < index.toInt ∧ defect = .tempIndex index ∨
        segment = .pointer ∧ 1 < index.toInt ∧ defect = .pointerIndex index := by
  cases segment with
  | argument | localVar | this | that | constant | staticVar => simp [ofIndex]
  | temp =>
    rw [ofIndex, Platform.tempSize]
    by_cases inside : index.toInt.toNat < 8
    · have : ¬ 7 < index.toInt := by omega
      rw [if_pos inside]
      simp [this]
    · have : 7 < index.toInt := by omega
      rw [if_neg inside]
      simp [this, eq_comm]
  | pointer =>
    rw [ofIndex]
    split
    · have : ¬ 1 < index.toInt := by omega
      simp [this]
    · have : ¬ 1 < index.toInt := by omega
      simp [this]
    · next notFirst notSecond =>
      have : 1 < index.toInt := by
        have some : index.toInt.toNat ≠ 0 := notFirst
        have more : index.toInt.toNat ≠ 1 := notSecond
        omega
      simp [this, eq_comm]

theorem Location.pop_eq_error {location : Location} : location.pop = .error defect ↔
    (∃ value, location = .constant value) ∧ defect = .popConstant := by
  cases location <;> simp [pop, eq_comm]

theorem access_eq_error : access op segment index file = .error defect ↔
    (Command.access op segment index file).RejectedFor defect := by
  rw [access, Except.bind_eq_error, Location.find_eq_error]
  constructor
  · rintro ((⟨below, rfl⟩ | ⟨positive, outside⟩) | ⟨location, found, stuck⟩)
    · exact .negative below
    · rcases (Location.ofIndex_eq_error positive).mp outside with
        ⟨rfl, beyond, rfl⟩ | ⟨rfl, beyond, rfl⟩
      · exact .temp beyond
      · exact .pointer beyond
    · cases op with
      | push => cases stuck
      | pop =>
        obtain ⟨⟨value, rfl⟩, rfl⟩ := Location.pop_eq_error.mp stuck
        obtain rfl := Location.eq_constant_of_find found
        exact .constant (Location.find_eq_ok.mp found).1
  · intro rejected
    cases rejected with
    | negative below => exact .inl (.inl ⟨below, rfl⟩)
    | temp beyond =>
      have positive : 0 ≤ index.toInt := by omega
      exact .inl (.inr ⟨positive,
        (Location.ofIndex_eq_error positive).mpr (.inl ⟨rfl, beyond, rfl⟩)⟩)
    | pointer beyond =>
      have positive : 0 ≤ index.toInt := by omega
      exact .inl (.inr ⟨positive,
        (Location.ofIndex_eq_error positive).mpr (.inr ⟨rfl, beyond, rfl⟩)⟩)
    | constant positive =>
      exact .inr ⟨_, Location.find_eq_ok.mpr ⟨positive, rfl⟩, rfl⟩

end Lowering

namespace Command

variable {c : Command} {number : Nat} {defect : Defect}

theorem block_eq_error : c.block number = .error defect ↔ c.RejectedFor defect := by
  rw [block, Except.map_eq_error]
  cases c with
  | access op segment index file => exact Lowering.access_eq_error
  | operator | label | goto | ifGoto | function | call | ret =>
    constructor
    · intro h
      cases h
    · intro h
      cases h

theorem acceptable_iff : c.Acceptable ↔ ∀ defect, ¬ c.RejectedFor defect := by
  constructor
  · intro acceptable defect rejected
    cases rejected with
    | negative below => exact absurd acceptable.1 (by omega)
    | temp beyond => exact absurd (acceptable.2.1 rfl) (by omega)
    | pointer beyond => exact absurd (acceptable.2.2.1 rfl) (by omega)
    | constant positive => exact acceptable.2.2.2 ⟨rfl, rfl⟩
  · intro accepted
    cases c with
    | access op segment index file =>
      have positive : 0 ≤ index.toInt := by
        by_contra below
        exact accepted _ (.negative (by omega))
      refine ⟨positive, ?_, ?_, ?_⟩
      · rintro rfl
        by_contra beyond
        exact accepted _ (.temp (by omega))
      · rintro rfl
        by_contra beyond
        exact accepted _ (.pointer (by omega))
      · rintro ⟨rfl, rfl⟩
        exact accepted _ (.constant positive)
    | operator | label | goto | ifGoto | function | call | ret => trivial

end Command

namespace Session

/-! ### Steps in a row -/

namespace Step

def Acceptable : Step → Prop
  | command c => c.Acceptable
  | bootstrap | endProgram => True

variable {s : Step} {steps front : List Step} {number after : Nat} {defect : Defect}
  {blocks : List Block}

end Step

variable {commands front back : List Command} {options : Options} {c : Command} {defect : Defect}
  {number : Nat}

end Session

end HackToolchain
