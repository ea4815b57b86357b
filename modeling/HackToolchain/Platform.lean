/-! The memory map of the Hack platform and the calling convention built on it: the convention
registers, the temp cells, the scratch registers, the first static and stack cells, the devices
and the frame that a call saves. -/

namespace HackToolchain.Platform

/-! ### Convention registers -/

def stackPointer : Nat := 0
def localBase : Nat := 1
def argumentBase : Nat := 2
def thisBase : Nat := 3
def thatBase : Nat := 4

/-! ### Temp cells and scratch registers -/

def tempBase : Nat := 5
def tempSize : Nat := 8

/-- Holds an effective address during an access, and the frame pointer during a return. -/
def addressScratch : String := "R13"

/-- Holds the return address while a frame is taken down. -/
def returnScratch : String := "R14"

/-! ### Memory areas -/

def variableBase : Nat := 16
def stackBase : Nat := 256
def screen : Nat := 16384
def keyboard : Nat := 24576

/-- The greatest value that an address instruction can load. -/
def maxAddress : Nat := 32767

/-! ### Calls -/

/-- The cells that a call saves: the return address and the saved registers. -/
def frameSize : Nat := 5

/-- The registers that a call saves above the return address, in the order of their cells. -/
def savedRegisters : List String := ["LCL", "ARG", "THIS", "THAT"]

/-- The function that the bootstrap code calls. -/
def entryFunction : String := "Sys.init"

end HackToolchain.Platform
