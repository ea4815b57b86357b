/-! The closed vocabularies of the stack machine: its nine operators, its two stack operations and
its eight memory segments, each with its spelling. Case matters and nothing is trimmed. -/

namespace HackToolchain

inductive Operator where
  | add | sub | neg | eq | gt | lt | and | or | not
deriving DecidableEq

namespace Operator

def all : List Operator := [add, sub, neg, eq, gt, lt, and, or, not]

def mnemonic : Operator → String
  | add => "add"
  | sub => "sub"
  | neg => "neg"
  | eq => "eq"
  | gt => "gt"
  | lt => "lt"
  | and => "and"
  | or => "or"
  | not => "not"

/-- The number of words that the operator takes off the stack. -/
def arity : Operator → Nat
  | neg | not => 1
  | _ => 2

def ofText? (text : String) : Option Operator := all.find? (·.mnemonic == text)

@[simp] theorem ofText?_mnemonic (op : Operator) : ofText? op.mnemonic = some op := by
  cases op <;> decide

theorem ofText?_eq_some {text : String} {op : Operator} (h : ofText? text = some op) :
    text = op.mnemonic := by
  have spelled := List.find?_some h
  exact (beq_iff_eq.mp spelled).symm

end Operator

inductive StackOp where
  | push | pop
deriving DecidableEq

namespace StackOp

def keyword : StackOp → String
  | push => "push"
  | pop => "pop"

def ofText? (text : String) : Option StackOp := [push, pop].find? (·.keyword == text)

@[simp] theorem ofText?_keyword (op : StackOp) : ofText? op.keyword = some op := by
  cases op <;> decide

theorem ofText?_eq_some {text : String} {op : StackOp} (h : ofText? text = some op) :
    text = op.keyword := by
  have spelled := List.find?_some h
  exact (beq_iff_eq.mp spelled).symm

end StackOp

inductive Segment where
  | argument | localVar | this | that | pointer | temp | constant | staticVar
deriving DecidableEq

namespace Segment

def all : List Segment := [argument, localVar, this, that, pointer, temp, constant, staticVar]

def name : Segment → String
  | argument => "argument"
  | localVar => "local"
  | this => "this"
  | that => "that"
  | pointer => "pointer"
  | temp => "temp"
  | constant => "constant"
  | staticVar => "static"

/-- The register that holds the address of the segment's first cell, for a segment that is reached
through one. -/
def baseRegister? : Segment → Option String
  | argument => some "ARG"
  | localVar => some "LCL"
  | this => some "THIS"
  | that => some "THAT"
  | _ => none

def ofText? (text : String) : Option Segment := all.find? (·.name == text)

@[simp] theorem ofText?_name (segment : Segment) : ofText? segment.name = some segment := by
  cases segment <;> decide

theorem ofText?_eq_some {text : String} {segment : Segment} (h : ofText? text = some segment) :
    text = segment.name := by
  have spelled := List.find?_some h
  exact (beq_iff_eq.mp spelled).symm

end Segment

end HackToolchain
