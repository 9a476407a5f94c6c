import ClassFile.Instruction

/-! How instructions are laid out: what follows an opcode, and what the opcode itself fixes. -/

namespace ClassFile

/-- The instructions that rearrange the operand stack, before their form is known. -/
inductive ShuffleOp where
  | pop | pop2 | dup | dupX1 | dupX2 | dup2 | dup2X1 | dup2X2 | swap
  deriving DecidableEq, Repr

/-- The operation of a form. -/
def Shuffle.op : Shuffle → ShuffleOp
  | .pop => .pop
  | .pop2 _ => .pop2
  | .dup => .dup
  | .dupX1 => .dupX1
  | .dupX2 _ => .dupX2
  | .dup2 _ => .dup2
  | .dup2X1 _ => .dup2X1
  | .dup2X2 _ => .dup2X2
  | .swap => .swap

/-- The instructions with a single branch target. -/
inductive Jump where
  | ifZero (condition : Condition)
  | ifIntCompare (condition : Condition)
  | ifReferenceCompare (equal : Bool)
  | ifNull (null : Bool)
  | goto
  | jsr
  deriving DecidableEq, Repr

def Jump.to (target : UInt16) : Jump → Instruction
  | .ifZero condition => .ifZero condition target
  | .ifIntCompare condition => .ifIntCompare condition target
  | .ifReferenceCompare equal => .ifReferenceCompare equal target
  | .ifNull null => .ifNull null target
  | .goto => .goto target
  | .jsr => .jsr target

/-- The ways to access a field. -/
inductive FieldUse where
  | getStatic | putStatic | getField | putField
  deriving DecidableEq, Repr

/-- The access to a field. -/
def FieldUse.of (field : FieldRef) : FieldUse → Instruction
  | .getStatic => .getStatic field
  | .putStatic => .putStatic field
  | .getField => .getField field
  | .putField => .putField field

/-- What an opcode fixes, and with that what follows it. -/
inductive Layout where
  /-- Nothing follows; the opcode fixes everything. -/
  | plain (instruction : Instruction)
  | shuffle (op : ShuffleOp)
  | arithmetic (op : ArithmeticOp) (kind : NumericKind)
  | negate (kind : NumericKind)
  | convert (source target : NumericKind)
  /-- A signed byte to push as an integer. -/
  | byteConstant
  /-- A signed word of two bytes to push as an integer. -/
  | shortConstant
  /-- The index of a constant in one byte, or in two if it is long; the constant is a wide one or not. -/
  | poolConstant (longIndex wideValue : Bool)
  /-- A local variable in one byte. -/
  | load (kind : ValueKind)
  /-- A local variable in one byte. -/
  | store (kind : ValueKind)
  /-- A local variable in one byte and a signed byte to add to it. -/
  | increment
  /-- A local variable in one byte. -/
  | ret
  /-- The signed distance to the target, in two bytes, or in four if it is long. -/
  | jump (jump : Jump) (longDistance : Bool)
  | tableSwitch
  | lookupSwitch
  /-- The index of a field reference in two bytes. -/
  | field (use : FieldUse)
  /-- The index of a method reference in two bytes; behind that of an interface method its argument count
  and a zero. -/
  | invoke (kind : InvokeKind)
  /-- The index of a class in two bytes. -/
  | newObject
  /-- The code of a primitive type in one byte. -/
  | newArray
  /-- The index of a class in two bytes. -/
  | newReferenceArray
  /-- The index of a class in two bytes and the number of dimensions in one. -/
  | newMultiArray
  /-- The index of a class in two bytes. -/
  | checkCast
  /-- The index of a class in two bytes. -/
  | instanceOf
  /-- Another opcode, and its operands in twice their width. -/
  | wide
  deriving DecidableEq

/-- How many bytes an instruction takes, the opcode included. -/
inductive InstructionLength where
  | fixed (bytes : UInt8)
  /-- The length depends on the operands. -/
  | variable
  deriving DecidableEq, Repr

namespace Layout

def length : Layout → InstructionLength
  | .plain _ | .shuffle _ | .arithmetic _ _ | .negate _ | .convert _ _ => .fixed 1
  | .byteConstant | .load _ | .store _ | .ret | .newArray => .fixed 2
  | .shortConstant | .increment | .field _ | .newObject | .newReferenceArray | .checkCast
  | .instanceOf => .fixed 3
  | .poolConstant longIndex _ => .fixed (if longIndex then 3 else 2)
  | .jump _ longDistance => .fixed (if longDistance then 5 else 3)
  | .invoke .interface => .fixed 5
  | .invoke _ => .fixed 3
  | .newMultiArray => .fixed 4
  | .tableSwitch | .lookupSwitch | .wide => .variable

/-- Whether instructions of a layout call a subroutine or return from one. -/
def isSubroutine : Layout → Bool
  | .jump .jsr _ | .ret => true
  | _ => false

end Layout

instance : Outlined InstructionLength where
  outline
    | .fixed bytes => .node "Fixed" [outline bytes]
    | .variable => .leaf "Variable"

end ClassFile
