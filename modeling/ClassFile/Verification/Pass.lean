import ClassFile.Error
import ClassFile.Instruction.Listing
import ClassFile.Verification.Loop
import ClassFile.Verification.Premises

/-! The verification pass. It goes over a listing once, from the start to the end. A branch forward leaves
what it brings at its target, to be joined there with what else reaches it; a branch back is checked
against what its target was entered with. Instructions behind a transfer are entered with what a frame, a
branch or an exception handler says about them, and otherwise with nothing. -/

namespace ClassFile

/-- A step of the pass: an instruction that was verified, what it was entered with, and what it left. -/
structure PassStep where
  verified : VerifiedInstruction
  before : Machine
  after : Machine

/-- The state of the pass between two instructions. -/
structure Pass where
  /-- What the last instruction hands on to the next one. -/
  machine : Machine
  fallsThrough : Bool
  /-- Where the instructions start that nothing seen so far reaches, if the last ones are such. -/
  unreached : Option UInt16
  /-- What branches bring to their targets. An entry replaces those behind it. -/
  arrivals : List (UInt16 × Arrival)
  /-- The targets of branches back. -/
  backward : List UInt16
  /-- The steps so far, the last one first. -/
  steps : List PassStep

namespace Pass

/-- What branches bring to an offset. -/
def arrivalAt? (pass : Pass) (pc : UInt16) : Option Arrival := pass.arrivals.lookup pc

/-- Whether something seen so far tells how an offset is reached. -/
def isKnown (p : Premises) (pass : Pass) (pc : UInt16) : Bool :=
  (p.frameAt? pc).isSome || (pass.arrivalAt? pc).isSome || p.isHandler pc

/-- Where the instructions start that nothing reaches, once the one at an offset is looked at. -/
def unreachedAt (p : Premises) (pass : Pass) (pc : UInt16) : Option UInt16 :=
  if pass.isKnown p pc then none
  else if !pass.fallsThrough && pass.unreached.isNone then some pc
  else pass.unreached

/-- What an instruction behind a transfer starts with. -/
def arrivalAfterTransfer (p : Premises) (pass : Pass) (pc : UInt16) : Except CodeFault Arrival :=
  match p.frameAt? pc, pass.arrivalAt? pc with
  | some frame, none => p.arrivalOf frame
  | some frame, some arrival => do
    let expected ← p.arrivalOf frame
    checkShape (shapeOf expected.items) (shapeOf arrival.items)
    .ok expected
  | none, some arrival => .ok arrival
  | none, none => .ok (p.unknownArrival pc)

/-- Replaces what the machine holds by what a path brings. -/
def adopt (arrival : Arrival) : MachineOp Unit := do
  OperandStack.replaceWith arrival.items
  modify fun machine => { machine with locals := arrival.locals }

/-- Enters an instruction behind a transfer. -/
def enterAfterTransfer (p : Premises) (pass : Pass) (pc : UInt16) : MachineOp Unit := do
  adopt (← pass.arrivalAfterTransfer p pc)

/-- Joins what the instruction before hands on with what a frame or other paths bring. -/
def joinAt (p : Premises) (pass : Pass) (pc : UInt16) : MachineOp Unit := do
  match p.frameAt? pc with
  | some frame => do
    checkShape frame.shape (← get).stack.shape
    adopt (← p.arrivalOf frame)
  | none =>
    match pass.arrivalAt? pc with
    | some arrival => do
      OperandStack.merge arrival.items
      modify fun machine => { machine with locals := machine.locals.merge arrival.locals }
    | none => pure ()

/-- Enters an instruction from the one before. At a handler there can be nothing but the exception. -/
def enterByFallThrough (p : Premises) (pass : Pass) (pc : UInt16) : MachineOp Unit := do
  joinAt p pass pc
  if p.isHandler pc then checkShape [.reference] (← get).stack.shape

/-- What the instruction at an offset is entered with. -/
def enter (p : Premises) (pass : Pass) (pc : UInt16) : Except CodeFault Machine :=
  let entering :=
    if pass.fallsThrough then enterByFallThrough p pass pc else enterAfterTransfer p pass pc
  match entering pass.machine with
  | .error fault _ => .error fault
  | .ok () machine => .ok { machine with stack := machine.stack.beginInstruction }

/-- What an instruction before was entered with. -/
def entryAt? (steps : List PassStep) (pc : UInt16) : Option Machine :=
  (steps.find? fun step => step.verified.pc = pc).map PassStep.before

/-- The instructions from an offset on. -/
def bodyFrom (steps : List PassStep) (pc : UInt16) : List Instruction :=
  (steps.takeWhile fun step => pc ≤ step.verified.pc).reverse.map (·.verified.instruction)

/-- What an instruction does to the machine: where it stands, what it is entered with, and what it
leaves. -/
structure Transition where
  pc : UInt16
  before : Machine
  after : Machine

/-- Checks a branch back. It may go to the branching instruction itself. -/
def branchBack (pass : Pass) (t : Transition) (target : UInt16) : Except CodeFault Pass :=
  let entry := if target = t.pc then some t.before else entryAt? pass.steps target
  match entry with
  | none => .error (.invalidTarget .branchTarget target.toNat)
  | some entered => do
    checkShape entered.stack.shape t.after.stack.shape
    checkLoop entered.locals t.after.locals (bodyFrom pass.steps target)
    .ok { pass with backward := target :: pass.backward }

/-- Leaves what a branch forward brings at its target. -/
def branchForward (pass : Pass) (t : Transition) (target : UInt16) : Except CodeFault Pass :=
  match pass.arrivalAt? target with
  | none =>
    .ok { pass with arrivals := (target, ⟨t.after.stack.items, t.after.locals⟩) :: pass.arrivals }
  | some known => do
    let items ← OperandStack.joinWithin t.after.stack.maxStack known.items t.after.stack.items
    let joined : Arrival := ⟨items, known.locals.merge t.after.locals⟩
    .ok { pass with arrivals := (target, joined) :: pass.arrivals }

/-- Follows a branch. -/
def branch (t : Transition) (pass : Pass) (target : UInt16) : Except CodeFault Pass :=
  if target ≤ t.pc then pass.branchBack t target else pass.branchForward t target

/-- What an instruction hands on to the next one. A subroutine comes back without its return address, and
may have changed every local variable. -/
def handOn (p : Premises) (i : Instruction) (after : Machine) : Except CodeFault Machine :=
  if i.isSubroutineCall then
    match OperandStack.popReturnAddress after.stack with
    | .error fault _ => .error fault
    | .ok _ stack => .ok ⟨stack, Locals.unknown p.maxLocals⟩
  else
    .ok after

/-- Performs the operation that an instruction decodes to. -/
def performAt (p : Premises) (pc : UInt16) (decoded : Decoded) (before : Machine) :
    Except CodeFault (Instruction × Machine) :=
  match decoded.operation.perform ⟨p.method, p.localVariables, pc, decoded.next⟩ before with
  | .error fault _ => .error fault
  | .ok i after => .ok (i, after)

/-- Verifies the instruction at a place. -/
def step (p : Premises) (pass : Pass) (place : ListedPlace) : Except CodeFault Pass := do
  let pc := place.pc
  let before ← pass.enter p pc
  let decoded ← place.decoded
  let (i, after) ← performAt p pc decoded before
  let branched ← i.branchTargets.foldlM (branch ⟨pc, before, after⟩) pass
  let machine ← handOn p i after
  let verified : VerifiedInstruction :=
    ⟨pc, p.lines.lineAt? pc, i, after.stack.effect, after.stack.depth⟩
  .ok
    { branched with
      machine
      fallsThrough := !i.isTransfer
      unreached := pass.unreachedAt p pc
      steps := ⟨verified, before, after⟩ :: pass.steps }

/-- Finds the fault of an instruction at its offset. -/
def atOffset {α : Type} (pc : UInt16) : Except CodeFault α → Except Error α
  | .ok value => .ok value
  | .error fault => .error ⟨[], .code pc fault⟩

/-- Verifies the instructions of a listing. -/
def run (p : Premises) (pass : Pass) : List ListedPlace → Except Error Pass
  | [] => .ok pass
  | place :: rest => do
    let next ← atOffset place.pc (pass.step p place)
    run p next rest

/-- The state before the first instruction. The method is entered by a call, so that its first
instruction counts as one that control falls into. -/
def start (p : Premises) : Except CodeFault Pass := do
  let locals ← Locals.atEntry p.maxLocals p.method.isStatic p.method.descriptor
  .ok
    { machine := ⟨OperandStack.empty p.maxStack, locals⟩
      fallsThrough := true
      unreached := none
      arrivals := []
      backward := []
      steps := [] }

/-- The offset of the last instruction. -/
def lastOffset (pass : Pass) : UInt16 := (pass.steps.head?.map (·.verified.pc)).getD 0

/-- Checks that control does not leave the code at its end. If it only does so behind instructions that
nothing reaches, these count as bytes too many. -/
def finish (codeLength : UInt16) (pass : Pass) : Except Error (List PassStep) :=
  if pass.fallsThrough then
    match pass.unreached.filter fun start => !pass.backward.any (start ≤ ·) with
    | some start => atOffset start (.error (.wrongCodeLength codeLength.toNat start.toNat))
    | none => atOffset pass.lastOffset (.error (.malformed .fallsOffTheEnd))
  else
    .ok pass.steps.reverse

end Pass

/-- Verifies the code of a method, given as a listing. -/
def Premises.verify (p : Premises) (codeLength : UInt16) (places : List ListedPlace) :
    Except Error (List PassStep) := do
  let start ← Pass.atOffset 0 (Pass.start p)
  let pass ← start.run p places
  pass.finish codeLength

end ClassFile
