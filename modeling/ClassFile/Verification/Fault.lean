import ClassFile.Instruction

/-! What can be wrong with code. -/

namespace ClassFile

/-- What a local variable slot holds. -/
inductive LocalSlot where
  /-- Nothing was stored here on the way to the current instruction. -/
  | unset
  /-- A value, or the first half of a wide one. -/
  | value (category : Category)
  /-- The second half of the wide value in the slot before. -/
  | upper
  /-- Paths disagree on what is here, or the path is not known. -/
  | unknown
  deriving DecidableEq, Repr

/-- What a mismatch names as expected or as found. -/
inductive Subject where
  | category (c : Category)
  | instanceOf (type : ReturnType)
  | shape (categories : List Category)
  | slot (index : UInt16) (slot : LocalSlot)
  | splitValue
  | variable (c : Category) (name : Text)
  | someValue
  | nothing
  | narrowValue
  | wideValue
  | narrowConstant
  | wideConstant
  | referenceOrReturnAddress
  | arrayOf (kind : ElementKind)
  | someArray
  | returnOf (type : ReturnType)
  | returnInstruction (kind : Option ValueKind)
  deriving DecidableEq

/-- What is wrong with the operands of an instruction. -/
inductive OperandFault where
  | constantVersion (what : Pool.Tag) (required : UInt16) (version : Version)
  | switchPadding
  | emptyRange (low high : Int32)
  | negativePairs (count : Int32)
  | unorderedKeys (key previous : Int32)
  | interfaceCount (count : UInt8) (descriptor : MethodDescriptor) (needed : UInt16)
  | interfaceZero
  | initInvocation
  | newOfArray (type : ClassName)
  | arrayCode (code : UInt8)
  | arrayDepth (fault : DescriptorFault)
  | noDimensions
  | fewDimensions (dimensions : UInt8) (type : ClassName)
  | wideOpcode (opcode : UInt8)
  deriving DecidableEq

/-- Why an opcode can't be decoded. -/
inductive OpcodeFault where
  | reserved (mnemonic : String)
  | unknown
  | notYetSupported (mnemonic : String)
  | notInVersion (mnemonic : String) (version : Version)
  | malformed (fault : OperandFault)
  deriving DecidableEq

/-- The places that have to be the start of an instruction, or the end of the code. -/
inductive OffsetRole where
  | branchTarget | rangeStart | rangeEnd | handler | lineStart | variableStart | variableEnd
  | frameOffset
  deriving DecidableEq, Repr

/-- Broken promises of the verifier to itself. Only those are listed that a state of the verifier could break.
The others are kept by types: no `FieldType` is void, so that fields and parameters have values, a `BinaryName`
of a well known class carries the proof that it is one, the one dimension of an array of a `Primitive` is no
sum that could be too large, and the table of stack instructions is for each `ShuffleOp` and nothing else. -/
inductive InternalFault where
  | reservedPush
  | touchedStack
  deriving DecidableEq, Repr

/-- Faults of code that are no fault of a single operand. -/
inductive Malformation where
  | topOnStack
  | fallsOffTheEnd
  /-- A fault that lies outside of the code. -/
  | elsewhere (message : String)
  deriving DecidableEq

/-- A violation found while code is decoded and verified. -/
inductive CodeFault where
  | underflow
  | overflow (maxStack : UInt16)
  | mismatch (expected found : Subject)
  | invalidOpcode (opcode : UInt8) (fault : OpcodeFault)
  | notEnoughBytes
  | wrongCodeLength (expected actual : Nat)
  | invalidTarget (role : OffsetRole) (target : Int)
  | invalidLocal (index : Nat) (maxLocals : UInt16)
  | exceedsCodeLength (role : OffsetRole) (pc : Nat) (codeLength : UInt16)
  | pool (located : Pool.Located)
  | malformed (fault : Malformation)
  | internal (fault : InternalFault)
  deriving DecidableEq

/-- The written form of the categories on a stack, bottom first. -/
def describeShape (categories : List Category) : String :=
  "stack [" ++ Outline.separated ", " (categories.map Category.name) ++ "]"

/-- The words for what a local variable slot holds. -/
def LocalSlot.describe (index : UInt16) : LocalSlot → String
  | .unset => "unset local variable " ++ toString index.toNat
  | .value c => c.name ++ " in local variable " ++ toString index.toNat
  | .upper => "the second slot of a long or double in local variable " ++ toString index.toNat
  | .unknown => "unknown local variable " ++ toString index.toNat

/-- The words for what a mismatch names. -/
def Subject.describe : Subject → String
  | .category c => c.name
  | .instanceOf type => "reference " ++ type.display
  | .shape categories => describeShape categories
  | .slot index held => held.describe index
  | .splitValue => "a value with its second slot overwritten"
  | .variable c name => c.name ++ " for local variable " ++ name.quoted
  | .someValue => "a value"
  | .nothing => "void"
  | .narrowValue => "a category 1 value"
  | .wideValue => "a category 2 value"
  | .narrowConstant => "a category 1 constant"
  | .wideConstant => "a long or double constant"
  | .referenceOrReturnAddress => "reference or returnAddress"
  | .arrayOf kind => "an array for " ++ kind.name ++ " elements"
  | .someArray => "an array"
  | .returnOf type => "a return instruction for return type " ++ type.display
  | .returnInstruction kind => returnMnemonic kind

def OperandFault.message : OperandFault → String
  | .constantVersion what required version =>
    "loading a " ++ what.name ++ " constant needs class file version " ++ toString required.toNat
      ++ ", this is " ++ version.display
  | .switchPadding => "switch padding bytes must be zero"
  | .emptyRange low high =>
    "tableswitch has low " ++ toString low.toInt ++ " greater than high " ++ toString high.toInt
  | .negativePairs count =>
    "lookupswitch has a negative number of pairs " ++ toString count.toInt
  | .unorderedKeys key previous =>
    "lookupswitch keys must be increasing, got " ++ toString key.toInt ++ " after "
      ++ toString previous.toInt
  | .interfaceCount count descriptor needed =>
    "invokeinterface has count " ++ toString count.toNat ++ ", but " ++ descriptor.display
      ++ " needs " ++ toString needed.toNat
  | .interfaceZero => "the last operand byte of invokeinterface must be zero"
  | .initInvocation => "only invokespecial can call `<init>`"
  | .newOfArray type => "new can't create an instance of the array class " ++ type.display
  | .arrayCode code => "newarray has invalid array type " ++ toString code.toNat
  | .arrayDepth fault => fault.message
  | .noDimensions => "multianewarray needs at least one dimension"
  | .fewDimensions dimensions type =>
    "multianewarray creates " ++ toString dimensions.toNat ++ " dimensions of " ++ type.display
      ++ ", which only has " ++ toString type.type.dimensions.toNat
  | .wideOpcode opcode => "wide can't modify opcode " ++ Text.hexNumber 4 opcode.toNat

def OpcodeFault.message : OpcodeFault → String
  | .reserved mnemonic => "reserved opcode " ++ mnemonic
  | .unknown => "unknown opcode"
  | .notYetSupported mnemonic => mnemonic ++ " is not yet supported"
  | .notInVersion mnemonic version =>
    mnemonic ++ " is not allowed in class file version " ++ version.display
  | .malformed fault => fault.message

/-- The words for the role of an offset. -/
def OffsetRole.label : OffsetRole → String
  | .branchTarget => "branch target"
  | .rangeStart => "exception range start"
  | .rangeEnd => "exception range end"
  | .handler => "exception handler"
  | .lineStart => "line number start"
  | .variableStart => "local variable start"
  | .variableEnd => "local variable end"
  | .frameOffset => "stack map frame offset"

/-- The wording of a broken promise. -/
def InternalFault.message : InternalFault → String
  | .reservedPush => "pushing an item with reserved space overflowed the stack"
  | .touchedStack => "an instruction without stack effect changed the stack"

def Malformation.message : Malformation → String
  | .topOnStack => "a stack map frame has `top` on the operand stack"
  | .fallsOffTheEnd => "execution can fall off the end of the code"
  | .elsewhere message => message

def CodeFault.message : CodeFault → String
  | .underflow => "operand stack underflow"
  | .overflow maxStack => "operand stack overflow, max_stack is " ++ toString maxStack.toNat
  | .mismatch expected found =>
    "type mismatch: expected " ++ expected.describe ++ ", found " ++ found.describe
  | .invalidOpcode opcode fault =>
    "invalid opcode " ++ Text.hexNumber 4 opcode.toNat ++ ": " ++ fault.message
  | .notEnoughBytes => "not enough bytes left to decode the instruction"
  | .wrongCodeLength expected actual =>
    "did not read the correct number of bytes: expected " ++ toString expected ++ ", read "
      ++ toString actual
  | .invalidTarget role target =>
    role.label ++ " " ++ toString target ++ " is not the start of an instruction"
  | .invalidLocal index maxLocals =>
    "local variable " ++ toString index ++ " is out of range, max_locals is "
      ++ toString maxLocals.toNat
  | .exceedsCodeLength role pc codeLength =>
    role.label ++ " " ++ toString pc ++ " exceeds code length " ++ toString codeLength.toNat
  | .pool located => located.message
  | .malformed fault => fault.message
  | .internal fault => "internal invariant violated: " ++ fault.message

end ClassFile
