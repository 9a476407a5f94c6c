import ClassFile.Instruction.Operands
import ClassFile.Verification.Locals
import ClassFile.Verification.Stack

/-! What instructions do to the operand stack and the local variables, as far as verification models
them. -/

namespace ClassFile

/-- The operand stack and the local variables. -/
structure Machine where
  stack : OperandStack
  locals : Locals
  deriving DecidableEq

/-- Operations on both. One that fails may have changed the stack before. -/
abbrev MachineOp := EStateM CodeFault Machine

namespace MachineOp

/-- Performs an operation on the stack. -/
def onStack {α : Type} (op : StackOp α) : MachineOp α := fun machine =>
  match op machine.stack with
  | .ok value stack => .ok value { machine with stack }
  | .error fault stack => .error fault { machine with stack }

instance : MonadLift StackOp MachineOp := ⟨onStack⟩

/-- Takes the result of a check. -/
def ofExcept {α : Type} : Except CodeFault α → MachineOp α
  | .ok value => pure value
  | .error fault => throw fault

instance : MonadLift (Except CodeFault) MachineOp := ⟨ofExcept⟩

end MachineOp

/-- The method and the place in it at which an instruction is performed: where the instruction starts, and
where the next one does. -/
structure Setting where
  method : MethodContext
  localVariables : List LocalVariable
  pc : UInt16
  next : UInt16

namespace Setting

/-- The value of a kind that comes from here. References come with their type if it is known. -/
def item (s : Setting) (origin : Origin) (kind : Option NumericKind) (type : Option FieldType) :
    StackItem :=
  match kind with
  | some kind => .numeric kind ⟨s.pc, origin⟩
  | none => .ofObject type ⟨s.pc, origin⟩

/-- Pushes a number that is computed here. -/
def pushComputed (s : Setting) (kind : NumericKind) : MachineOp Unit :=
  OperandStack.push (.numeric kind ⟨s.pc, .computation⟩)

/-- Pushes a reference that is made here. -/
def pushReference (s : Setting) (origin : Origin) (type : FieldType) : MachineOp Unit :=
  OperandStack.push (.ofObject (some type) ⟨s.pc, origin⟩)

/-- The type of the first variable with a type that is live here in a slot. -/
def boundType? (s : Setting) (index : UInt16) : Option FieldType :=
  s.localVariables.findSome? fun v => if v.index = index ∧ v.isLiveAt s.pc then v.type else none

/-- Pushes the value of a local variable. -/
def load (s : Setting) (kind : ValueKind) (index : UInt16) : MachineOp Unit := do
  (← get).locals.load index kind.category
  checkBinding s.localVariables s.pc index kind.category
  OperandStack.push (s.item (.local index) kind.numeric? (s.boundType? index))

/-- Takes the value that a store instruction stores. References may be return addresses too. -/
def popStored : ValueKind → StackOp StackItem
  | .reference =>
    OperandStack.popIf .referenceOrReturnAddress fun
      | .reference _ _ | .returnAddress _ => true
      | .numeric _ _ => false
  | kind => OperandStack.popNumeric kind.category

/-- Pops a value into a local variable, which starts to live with the next instruction. -/
def store (s : Setting) (kind : ValueKind) (index : UInt16) : MachineOp Unit := do
  let stored ← popStored kind
  let locals ← (← get).locals.store index stored.category
  modify fun machine => { machine with locals }
  if stored.category ≠ .returnAddress then
    checkBinding s.localVariables s.next index stored.category

/-- The type of the elements of an array, if the type of the array is known; it has to fit the
instruction. -/
def elementType (kind : ElementKind) (array : StackItem) : Except CodeFault (Option FieldType) :=
  match array with
  | .reference _ (some type) =>
    match type.component? with
    | some element =>
      if ElementKind.ofType element = kind then .ok (some element)
      else .error (.mismatch (.arrayOf kind) array.subject)
    | none => .error (.mismatch (.arrayOf kind) array.subject)
  | _ => .ok none

/-- Pushes an element of an array. -/
def arrayLoad (s : Setting) (kind : ElementKind) : MachineOp Unit := do
  let _ ← OperandStack.popNumeric .int
  let array ← OperandStack.popReference
  let element ← elementType kind array
  OperandStack.push (s.item .arrayElement kind.numeric? element)

/-- Pops a value into an array. -/
def arrayStore (kind : ElementKind) : MachineOp Unit := do
  let _ ← OperandStack.popValue kind.category
  let _ ← OperandStack.popNumeric .int
  let array ← OperandStack.popReference
  discard (elementType kind array)

/-- Computes a number from two. -/
def binary (s : Setting) (kind result : NumericKind) : MachineOp Unit := do
  let _ ← OperandStack.popNumeric kind.category
  let _ ← OperandStack.popNumeric kind.category
  s.pushComputed result

/-- Computes a number from another. -/
def unary (s : Setting) (kind result : NumericKind) : MachineOp Unit := do
  let _ ← OperandStack.popNumeric kind.category
  s.pushComputed result

/-- Computes a number from another and a distance. -/
def shift (s : Setting) (kind : NumericKind) : MachineOp Unit := do
  let _ ← OperandStack.popNumeric .int
  let _ ← OperandStack.popNumeric kind.category
  s.pushComputed kind

/-- Adds to a local variable. -/
def increment (s : Setting) (index : UInt16) : MachineOp Unit := do
  (← get).locals.load index .int
  checkBinding s.localVariables s.pc index .int
  OperandStack.unchanged

/-- Returns from the method, with what its descriptor asks for. -/
def returnValue (s : Setting) (kind : Option ValueKind) : MachineOp Unit :=
  let returnType := s.method.descriptor.returnType
  match kind.map ValueKind.category, returnType.category? with
  | none, none => OperandStack.unchanged
  | some given, some wanted =>
    if given = wanted then discard (OperandStack.popValue wanted)
    else throw (.mismatch (.returnOf returnType) (.returnInstruction kind))
  | _, _ => throw (.mismatch (.returnOf returnType) (.returnInstruction kind))

/-- Takes a value of a type. -/
def popOf (type : FieldType) : StackOp Unit := discard (OperandStack.popValue type.category)

/-- Takes values of types, the first one first. -/
def popAllOf : List FieldType → StackOp Unit
  | [] => pure ()
  | type :: rest => do
    popOf type
    popAllOf rest

/-- Calls a method: takes its arguments, the last one first, then the receiver if there is one. -/
def invoke (s : Setting) (kind : InvokeKind) (method : MethodRef) : MachineOp Unit := do
  popAllOf method.descriptor.parameters.reverse
  if kind ≠ .static then discard OperandStack.popReference
  match method.descriptor.returnType with
  | .void => pure ()
  | .value type => OperandStack.push (.ofField type ⟨s.pc, .invocation⟩)

/-- The opcode that creates arrays of references. -/
def referenceArrayOpcode : UInt8 := 0xbd

/-- Creates an array of references, of a type that there has to be. -/
def newReferenceArray (s : Setting) (element : ClassName) : MachineOp Unit := do
  match element.type.arrayOf with
  | .error fault => throw (.invalidOpcode referenceArrayOpcode (.malformed (.arrayDepth fault)))
  | .ok type => do
    let _ ← OperandStack.popNumeric .int
    s.pushReference .allocation type

/-- Takes a number of integers. -/
def popCounts : Nat → StackOp Unit
  | 0 => pure ()
  | n + 1 => do
    let _ ← OperandStack.popNumeric .int
    popCounts n

/-- Pushes the length of an array. -/
def arrayLength (s : Setting) : MachineOp Unit := do
  let array ← OperandStack.popReference
  if let .reference _ (some type) := array then
    if !type.isArray then throw (.mismatch .someArray array.subject)
  s.pushComputed .int

end Setting

/-- The value of a constant. -/
def Constant.item (provenance : Provenance) : Constant → StackItem
  | .null => .reference provenance none
  | .int _ => .numeric .int provenance
  | .long _ => .numeric .long provenance
  | .float _ => .numeric .float provenance
  | .double _ => .numeric .double provenance

/-- Performs a stack instruction, and finds its form. -/
def ShuffleOp.run : ShuffleOp → StackOp Shuffle
  | .pop => do
    let _ ← OperandStack.popNarrow
    return .pop
  | .pop2 => return .pop2 (← OperandStack.pop2)
  | .dup => do
    OperandStack.dup
    return .dup
  | .dupX1 => do
    OperandStack.dupX1
    return .dupX1
  | .dupX2 => return .dupX2 (← OperandStack.dupX2)
  | .dup2 => return .dup2 (← OperandStack.dup2)
  | .dup2X1 => return .dup2X1 (← OperandStack.dup2X1)
  | .dup2X2 => return .dup2X2 (← OperandStack.dup2X2)
  | .swap => do
    OperandStack.swap
    return .swap

def Instruction.perform (s : Setting) : Instruction → MachineOp Unit
  | .nop | .goto _ => OperandStack.unchanged
  | .constant value => OperandStack.push (value.item ⟨s.pc, .constant⟩)
  | .ldc value => OperandStack.push (.ofField value.type ⟨s.pc, .constant⟩)
  | .load kind index => s.load kind index
  | .store kind index => s.store kind index
  | .arrayLoad kind => s.arrayLoad kind
  | .arrayStore kind => Setting.arrayStore kind
  | .shuffle form => discard form.op.run
  | .arithmetic _ kind _ | .bitwise _ kind => s.binary kind kind
  | .negate kind _ => s.unary kind kind
  | .shift _ kind => s.shift kind
  | .increment index _ => s.increment index
  | .convert source target _ => s.unary source target
  | .truncate _ => s.unary .int .int
  | .longCompare => s.binary .long .int
  | .floatingCompare kind _ => s.binary kind .int
  | .ifZero _ _ | .tableSwitch _ _ _ _ | .lookupSwitch _ _ => Setting.popCounts 1
  | .ifIntCompare _ _ => Setting.popCounts 2
  | .ifReferenceCompare _ _ => do
    let _ ← OperandStack.popReference
    let _ ← OperandStack.popReference
  | .ifNull _ _ | .athrow | .monitorEnter | .monitorExit => discard OperandStack.popReference
  | .jsr _ => OperandStack.push (.returnAddress s.next)
  | .ret index => do
    (← get).locals.load index .returnAddress
    OperandStack.unchanged
  | .returnValue kind => s.returnValue kind
  | .getStatic field => OperandStack.push (.ofField field.type ⟨s.pc, .field⟩)
  | .putStatic field => Setting.popOf field.type
  | .getField field => do
    let _ ← OperandStack.popReference
    OperandStack.push (.ofField field.type ⟨s.pc, .field⟩)
  | .putField field => do
    Setting.popOf field.type
    let _ ← OperandStack.popReference
  | .invoke kind method => s.invoke kind method
  | .newObject type => s.pushReference .allocation type.type
  | .newArray element => do
    let _ ← OperandStack.popNumeric .int
    s.pushReference .allocation ⟨.primitive element, 1⟩
  | .newReferenceArray element => s.newReferenceArray element
  | .arrayLength => s.arrayLength
  | .checkCast type => do
    let _ ← OperandStack.popReference
    s.pushReference .computation type.type
  | .instanceOf _ => do
    let _ ← OperandStack.popReference
    s.pushComputed .int
  | .newMultiArray type dimensions => do
    Setting.popCounts dimensions.toNat
    s.pushReference .allocation type.type

/-- Performs an operation, and returns the instruction that it turned out to be. -/
def Operation.perform (s : Setting) : Operation → MachineOp Instruction
  | .instruction i => do
    i.perform s
    return i
  | .shuffle op => return .shuffle (← op.run)

end ClassFile
