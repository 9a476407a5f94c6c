import ClassFile.Instruction.Opcode
import ClassFile.Pool.Loadable
import ClassFile.Pool.Resolve
import ClassFile.Reader
import ClassFile.Verification.Method
import ClassFile.Verification.Stack

/-! Decoding an instruction: reading its operands, and checking them as far as that can be done without
looking at the stack and the local variables. What is left is an operation to perform. -/

namespace ClassFile

/-- A decoded instruction. Only the form of a stack instruction is still open, since the items on the
stack choose it. -/
inductive Operation where
  | instruction (i : Instruction)
  | shuffle (op : ShuffleOp)
  deriving DecidableEq

/-- An instruction that is decoded: where it starts, its opcode, and what its operands depend on. -/
structure Site where
  pc : UInt16
  opcode : UInt8
  codeLength : UInt16
  pool : Pool
  method : MethodContext

instance : Truncatable CodeFault := ⟨fun _ _ => .notEnoughBytes⟩

/-- Decoding of operands, from a cursor right behind the opcode. -/
abbrev Decoder := Reader CodeFault

namespace Decoder

/-- Takes a result of looking into a constant pool. -/
def ofPool {α : Type} : Except Pool.Located α → Decoder α
  | .ok value => pure value
  | .error located => throw (.pool located)

instance : MonadLift (Except Pool.Located) Decoder := ⟨ofPool⟩

/-- Fails with a fault of the operands. -/
def malformed {α : Type} (site : Site) (fault : OperandFault) : Decoder α :=
  throw (.invalidOpcode site.opcode (.malformed fault))

/-- The largest length that a message can name. -/
def maxLength : Nat := 0xffffffff

/-- Checks that an instruction of a length ends within the code. -/
def requireLength (site : Site) (length : Nat) : Decoder Unit :=
  let stop := site.pc.toNat + length
  if site.codeLength.toNat < stop then
    throw (.wrongCodeLength site.codeLength.toNat (min stop maxLength))
  else
    pure ()

/-- The target at a distance, which has to lie within the code. -/
def targetAt (site : Site) (distance : Int) : Decoder UInt16 :=
  let target := site.pc.toNat + distance
  if target < 0 ∨ site.codeLength.toNat ≤ target then throw (.invalidTarget .branchTarget target)
  else pure (UInt16.ofNat target.toNat)

/-- Reads a distance of two bytes. -/
def shortTarget (site : Site) : Decoder UInt16 := do targetAt site (← Reader.i16).toInt

/-- Reads a distance of four bytes. -/
def longTarget (site : Site) : Decoder UInt16 := do targetAt site (← Reader.i32).toInt

/-- Reads the index of a class. -/
def classRef (site : Site) : Decoder ClassName := do site.pool.classAt (← Reader.u16)

/-- A constant that is loaded from the pool. Only one instruction loads wide constants, and that one loads
nothing else. -/
def poolConstant (site : Site) (index : UInt16) (wideValue : Bool) : Decoder Instruction := do
  let value ← site.pool.loadableAt index
  if let some (tag, major) := value.restriction? then
    if !site.method.version.atLeast major then
      malformed site (.constantVersion tag major site.method.version)
  let item := StackItem.ofField value.type ⟨site.pc, .constant⟩
  if wideValue ≠ item.isWide then
    throw (.mismatch (if wideValue then .wideConstant else .narrowConstant) item.subject)
  return .ldc value

/-- The bytes between the opcode of a switch and its operands, which start at a multiple of four. -/
def paddingAt (pc : UInt16) : Nat := 3 - pc.toNat % 4

/-- Reads padding, which has to be zero. -/
def padding (site : Site) : Nat → Decoder Unit
  | 0 => pure ()
  | n + 1 => do
    if (← Reader.u8) ≠ 0 then malformed site .switchPadding
    padding site n

/-- Reads the operands of a switch over a range. -/
def tableSwitch (site : Site) : Decoder Instruction := do
  let head := 1 + paddingAt site.pc + 12
  requireLength site head
  padding site (paddingAt site.pc)
  let default ← longTarget site
  let low ← Reader.i32
  let high ← Reader.i32
  if high < low then malformed site (.emptyRange low high)
  let count := (high.toInt - low.toInt + 1).toNat
  requireLength site (head + 4 * count)
  let targets ← collect count (longTarget site)
  return .tableSwitch default low high targets

/-- Reads pairs of a key and a target, with increasing keys. `found` holds the pairs so far, the last one
first. -/
def switchPairs (site : Site) (found : List (Int32 × UInt16)) :
    Nat → Decoder (List (Int32 × UInt16))
  | 0 => return found.reverse
  | n + 1 => do
    let key ← Reader.i32
    let target ← longTarget site
    if let (previous, _) :: _ := found then
      if key ≤ previous then malformed site (.unorderedKeys key previous)
    switchPairs site ((key, target) :: found) n

/-- Reads the operands of a switch over keys. -/
def lookupSwitch (site : Site) : Decoder Instruction := do
  let head := 1 + paddingAt site.pc + 8
  requireLength site head
  padding site (paddingAt site.pc)
  let default ← longTarget site
  let count ← Reader.i32
  if count < 0 then malformed site (.negativePairs count)
  requireLength site (head + 8 * count.toInt.toNat)
  let pairs ← switchPairs site [] count.toInt.toNat
  return .lookupSwitch default pairs

/-- Reads the reference to an interface method, and its argument count, which includes the receiver. -/
def interfaceMethod (site : Site) : Decoder MethodRef := do
  let method ← site.pool.interfaceMethodAt (← Reader.u16)
  let count ← Reader.u8
  let zero ← Reader.u8
  let needed := method.descriptor.parameterSlots + 1
  if count.toUInt16 ≠ needed then
    malformed site (.interfaceCount count method.descriptor needed)
  if zero ≠ 0 then malformed site .interfaceZero
  return method

/-- The first major version in which interface methods can be called without dispatch. -/
def directInterfaceMajor : UInt16 := 52

/-- Reads the reference to a method, which may be one of an interface if there is no dispatch. -/
def ordinaryMethod (site : Site) (kind : InvokeKind) : Decoder MethodRef := do
  let index ← Reader.u16
  let method ← site.pool.methodAt index
  let allowed := kind ≠ .virtual && site.method.version.atLeast directInterfaceMajor
  if method.ofInterface && !allowed then
    throw (.pool ⟨index, .wrongTag .methodRef .interfaceMethodRef⟩)
  return method

/-- Reads the operands of an invocation. -/
def invocation (site : Site) (kind : InvokeKind) : Decoder Instruction := do
  let method ←
    if kind = .interface then interfaceMethod site else ordinaryMethod site kind
  if method.name.isInit && kind ≠ .special then malformed site .initInvocation
  return .invoke kind method

/-- The primitive type of the elements that an array code stands for. -/
def elementOfCode? : UInt8 → Option Primitive
  | 4 => some .boolean
  | 5 => some .char
  | 6 => some .float
  | 7 => some .double
  | 8 => some .byte
  | 9 => some .short
  | 10 => some .int
  | 11 => some .long
  | _ => none

/-- Reads the code of a primitive type. -/
def newArray (site : Site) : Decoder Instruction := do
  let code ← Reader.u8
  match elementOfCode? code with
  | none => malformed site (.arrayCode code)
  | some element => return .newArray element

/-- Reads an array class and the number of its dimensions that are allocated. -/
def newMultiArray (site : Site) : Decoder Instruction := do
  let type ← classRef site
  let dimensions ← Reader.u8
  if dimensions = 0 then malformed site .noDimensions
  if type.type.dimensions < dimensions then malformed site (.fewDimensions dimensions type)
  return .newMultiArray type dimensions

/-- Reads another opcode that works on a local variable, with an index of two bytes. -/
def wide (site : Site) : Decoder Instruction := do
  requireLength site 2
  let modified ← Reader.u8
  match Opcode.layout? modified with
  | some (.load kind) => do
    requireLength site 4
    return .load kind (← Reader.u16)
  | some (.store kind) => do
    requireLength site 4
    return .store kind (← Reader.u16)
  | some .ret => do
    if Profile.ofVersion site.method.version = .modern then
      throw (.invalidOpcode site.opcode (.notInVersion "ret" site.method.version))
    requireLength site 4
    return .ret (← Reader.u16)
  | some .increment => do
    requireLength site 6
    return .increment (← Reader.u16) (← Reader.i16)
  | _ => malformed site (.wideOpcode modified)

/-- Reads the operands of an instruction of a layout. -/
def operands (site : Site) : Layout → Decoder Operation
  | .plain i => return .instruction i
  | .shuffle op => return .shuffle op
  | .arithmetic op kind => return .instruction (.arithmetic op kind (site.method.isStrictOn kind))
  | .negate kind => return .instruction (.negate kind (site.method.isStrictOn kind))
  | .convert source target =>
    return .instruction (.convert source target
      (site.method.isStrictOn source || site.method.isStrictOn target))
  | .byteConstant => return .instruction (.constant (.int (← Reader.i8).toInt32))
  | .shortConstant => return .instruction (.constant (.int (← Reader.i16).toInt32))
  | .poolConstant longIndex wideValue => do
    let index ← if longIndex then Reader.u16 else UInt8.toUInt16 <$> Reader.u8
    return .instruction (← poolConstant site index wideValue)
  | .load kind => return .instruction (.load kind (← Reader.u8).toUInt16)
  | .store kind => return .instruction (.store kind (← Reader.u8).toUInt16)
  | .increment => return .instruction (.increment (← Reader.u8).toUInt16 (← Reader.i8).toInt16)
  | .ret => return .instruction (.ret (← Reader.u8).toUInt16)
  | .jump jump longDistance => do
    let target ← if longDistance then longTarget site else shortTarget site
    return .instruction (jump.to target)
  | .tableSwitch => return .instruction (← tableSwitch site)
  | .lookupSwitch => return .instruction (← lookupSwitch site)
  | .field use => return .instruction (use.of (← site.pool.fieldAt (← Reader.u16)))
  | .invoke kind => return .instruction (← invocation site kind)
  | .newObject => do
    let type ← classRef site
    if type.isArray then malformed site (.newOfArray type)
    return .instruction (.newObject type)
  | .newArray => return .instruction (← newArray site)
  | .newReferenceArray => return .instruction (.newReferenceArray (← classRef site))
  | .newMultiArray => return .instruction (← newMultiArray site)
  | .checkCast => return .instruction (.checkCast (← classRef site))
  | .instanceOf => return .instruction (.instanceOf (← classRef site))
  | .wide => return .instruction (← wide site)

/-- Reads the operands of an instruction with an opcode. An instruction of fixed length has to lie within
the code as a whole before any operand is looked at. -/
def instruction (site : Site) (length : InstructionLength) (layout : Layout) :
    Decoder Operation := do
  if let .fixed bytes := length then requireLength site bytes.toNat
  operands site layout

end Decoder

/-- The fault of an opcode that is never accepted. -/
def Opcode.rejectionFault (opcode : Opcode) (version : Version) : Rejection → OpcodeFault
  | .reserved => .reserved opcode.mnemonic
  | .unknown => .unknown
  | .notYetSupported => .notYetSupported opcode.mnemonic
  | .notInVersion => .notInVersion opcode.mnemonic version

namespace Site

/-- Decodes the instruction at a site from the bytes behind its opcode. The number of bytes that its
operands take is returned with it. -/
def decode (site : Site) (operands : List UInt8) : Except CodeFault (Operation × Nat) :=
  let opcode := Opcode.ofByte (Profile.ofVersion site.method.version) site.opcode
  match opcode.layout with
  | .error rejection =>
    .error (.invalidOpcode site.opcode (opcode.rejectionFault site.method.version rejection))
  | .ok layout =>
    match Decoder.instruction site opcode.length layout (Cursor.ofBytes operands) with
    | .error fault _ => .error fault
    | .ok operation cursor => .ok (operation, cursor.position)

end Site

end ClassFile
