import ClassFile.Code
import ClassFile.Error

/-! Offsets of code. Every offset that an instruction or a table names has to be the start of an
instruction; the end of a range may also be the end of the code. -/

namespace ClassFile

/-- Which offsets of some code start an instruction. -/
structure Boundaries where
  starts : Array Bool

namespace Boundaries

/-- The boundaries of the instructions of code of a length. -/
def ofInstructions (codeLength : UInt16) (instructions : List VerifiedInstruction) : Boundaries :=
  ⟨instructions.foldl (fun starts i => starts.setIfInBounds i.pc.toNat true)
    (Array.replicate codeLength.toNat false)⟩

/-- Whether an offset starts an instruction. -/
def isStart (b : Boundaries) (pc : Nat) : Bool := b.starts.getD pc false

/-- Finds a fault of code at an offset. -/
def fault (pc : UInt16) (fault : CodeFault) : Except Error Unit := .error ⟨[], .code pc fault⟩

/-- Checks an offset that has to start an instruction. -/
def checkStart (b : Boundaries) (role : OffsetRole) (pc : UInt16) : Except Error Unit :=
  if b.isStart pc.toNat then .ok () else fault pc (.invalidTarget role pc.toNat)

/-- Checks the end of a range that starts at an offset. -/
def checkStop (b : Boundaries) (role : OffsetRole) (stop : Nat) (start : UInt16) :
    Except Error Unit :=
  if stop = b.starts.size ∨ b.isStart stop then .ok ()
  else fault start (.invalidTarget role stop)

/-- Checks the branch targets of an instruction. -/
def checkTargets (b : Boundaries) (i : VerifiedInstruction) : Except Error Unit :=
  i.instruction.branchTargets.forM fun target =>
    if b.isStart target.toNat then .ok ()
    else fault i.pc (.invalidTarget .branchTarget target.toNat)

/-- Checks the offsets of an exception handler. -/
def checkHandler (b : Boundaries) (codeLength : UInt16) (h : ExceptionHandler) :
    Except Error Unit := do
  if h.stop ≤ h.start then throw ⟨[], .structural (.emptyRange h.start h.stop)⟩
  if codeLength < h.stop then
    fault h.start (.exceedsCodeLength .rangeEnd h.stop.toNat codeLength)
  b.checkStart .rangeStart h.start
  b.checkStop .rangeEnd h.stop.toNat h.start
  b.checkStart .handler h.handler

/-- Checks the offset of a line number. -/
def checkLine (b : Boundaries) (codeLength : UInt16) (line : LineNumber) : Except Error Unit := do
  if codeLength ≤ line.start then
    fault line.start (.exceedsCodeLength .lineStart line.start.toNat codeLength)
  b.checkStart .lineStart line.start

/-- Checks the offsets of a local variable. -/
def checkVariable (b : Boundaries) (v : LocalVariable) : Except Error Unit := do
  b.checkStart .variableStart v.start
  b.checkStop .variableEnd v.stop v.start

/-- Checks the offset of a frame. -/
def checkFrame (b : Boundaries) (frame : StackMapFrame) : Except Error Unit :=
  b.checkStart .frameOffset frame.offset

/-- Checks all offsets that some code names. -/
def check (b : Boundaries) (code : Code) : Except Error Unit := do
  code.instructions.forM b.checkTargets
  code.exceptionTable.forM (b.checkHandler code.codeLength)
  code.lineNumbers.forM (b.checkLine code.codeLength)
  code.localVariables.forM b.checkVariable
  code.frames.forM b.checkFrame

end Boundaries

/-- Checks a local variable against the limits of the code. -/
def LocalVariable.check (v : LocalVariable) (maxLocals codeLength : UInt16) : Except Error Unit :=
  let size := (v.type.map FieldType.size).getD 1
  let last := v.index.toNat + size.toNat - 1
  if maxLocals.toNat ≤ last then .error ⟨[], .code v.start (.invalidLocal last maxLocals)⟩
  else if codeLength.toNat < v.stop then
    .error ⟨[], .code v.start (.exceedsCodeLength .variableEnd v.stop codeLength)⟩
  else .ok ()

end ClassFile
