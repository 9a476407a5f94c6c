import ClassFile.Instruction

/-! The verified body of a method: its instructions and the tables that belong to it. -/

namespace ClassFile

/-- How an instruction changed the operand stack, in slots. -/
inductive StackEffect where
  /-- Nothing was popped or pushed. -/
  | unchanged
  | changed (popped pushed : UInt16)
  deriving DecidableEq, Repr

/-- An instruction that passed verification, with where it stands. -/
structure VerifiedInstruction where
  pc : UInt16
  /-- The source line of the instruction, if the line numbers cover it. -/
  line : Option UInt16
  instruction : Instruction
  effect : StackEffect
  /-- The slots in use on the operand stack after the instruction. -/
  depthAfter : UInt16
  deriving DecidableEq

/-- An exception handler of the instructions from `start` up to, but not including, `stop`. -/
structure ExceptionHandler where
  start : UInt16
  stop : UInt16
  handler : UInt16
  /-- The class that is caught, or none if everything is. -/
  catchType : Option ClassName
  deriving DecidableEq

/-- The source line of the instructions from `start` on. -/
structure LineNumber where
  start : UInt16
  line : UInt16
  deriving DecidableEq, Repr

/-- A local variable, live for `length` bytes from `start` on. -/
structure LocalVariable where
  start : UInt16
  length : UInt16
  name : Text
  index : UInt16
  type : Option FieldType
  signature : Option Text
  deriving DecidableEq

namespace LocalVariable

/-- The offset at which a variable stops being live. -/
def stop (v : LocalVariable) : Nat := v.start.toNat + v.length.toNat

/-- Whether a variable is live at an offset. -/
def isLiveAt (v : LocalVariable) (pc : UInt16) : Bool := v.start ≤ pc && pc.toNat < v.stop

end LocalVariable

/-- The types that stack map frames use. -/
inductive VerificationType where
  | top | integer | float | long | double | null | uninitializedThis
  | object (type : ClassName)
  /-- An object that the instruction at an offset created. -/
  | uninitialized (pc : UInt16)
  deriving DecidableEq

/-- Whether values of a type take two slots. -/
def VerificationType.isWide : VerificationType → Bool
  | .long | .double => true
  | _ => false

/-- A stack map frame: the types of the local variables, and those on the stack from the bottom up. -/
structure StackMapFrame where
  offset : UInt16
  locals : List VerificationType
  stack : List VerificationType
  deriving DecidableEq

/-- The verified body of a method. -/
structure Code where
  maxStack : UInt16
  maxLocals : UInt16
  codeLength : UInt16
  /-- The bytes of the code, if they were asked for. -/
  bytes : Option (List UInt8)
  instructions : List VerifiedInstruction
  exceptionTable : List ExceptionHandler
  lineNumbers : List LineNumber
  localVariables : List LocalVariable
  frames : List StackMapFrame
  deriving DecidableEq

/-- Searches for the instruction at an offset among those from place `low` up to, but not including, place
`high`. They have to be in the order of their offsets. -/
def searchInstruction (instructions : Array VerifiedInstruction) (pc : UInt16) (low high : Nat) :
    Option VerifiedInstruction :=
  if low < high then
    let middle := low + (high - low) / 2
    match instructions[middle]? with
    | none => none
    | some found =>
      if found.pc = pc then some found
      else if found.pc < pc then searchInstruction instructions pc (middle + 1) high
      else searchInstruction instructions pc low middle
  else
    none
  termination_by high - low

/-- The instruction that starts at an offset. -/
def Code.instructionAt? (code : Code) (pc : UInt16) : Option VerifiedInstruction :=
  let instructions := code.instructions.toArray
  searchInstruction instructions pc 0 instructions.size

instance : Outlined StackEffect where
  outline
    | .unchanged => .leaf "Unchanged"
    | .changed popped pushed => .record "Changed"
      [("popped", outline popped), ("pushed", outline pushed)]

instance : Outlined VerifiedInstruction where
  outline verified := .record "VerifiedInstruction"
    [("pc", outline verified.pc), ("line", outline verified.line),
      ("instruction", outline verified.instruction), ("effect", outline verified.effect),
      ("depth_after", outline verified.depthAfter)]

instance : Outlined ExceptionHandler where
  outline handler := .record "ExceptionHandler"
    [("start", outline handler.start), ("end", outline handler.stop),
      ("handler", outline handler.handler), ("catch_type", outline handler.catchType)]

instance : Outlined LineNumber where
  outline line := .record "LineNumber" [("start", outline line.start), ("line", outline line.line)]

instance : Outlined LocalVariable where
  outline v := .record "LocalVariable"
    [("start", outline v.start), ("length", outline v.length), ("name", outline v.name),
      ("index", outline v.index),
      ("descriptor", match v.type with
        | none => .leaf "None"
        | some type => .node "Some" [type.descriptorOutline]),
      ("signature", outline v.signature)]

instance : Outlined VerificationType where
  outline
    | .top => .leaf "Top"
    | .integer => .leaf "Integer"
    | .float => .leaf "Float"
    | .long => .leaf "Long"
    | .double => .leaf "Double"
    | .null => .leaf "Null"
    | .uninitializedThis => .leaf "UninitializedThis"
    | .object type => .node "Object" [outline type]
    | .uninitialized pc => .node "Uninitialized" [outline pc]

instance : Outlined StackMapFrame where
  outline frame := .record "StackMapFrame"
    [("offset", outline frame.offset), ("locals", outline frame.locals),
      ("stack", outline frame.stack)]

instance : Outlined Code where
  outline code := .record "Code"
    [("max_stack", outline code.maxStack), ("max_locals", outline code.maxLocals),
      ("code_length", outline code.codeLength), ("bytes", outline code.bytes),
      ("instructions", outline code.instructions),
      ("exception_table", outline code.exceptionTable),
      ("line_numbers", outline code.lineNumbers),
      ("local_variables", outline code.localVariables),
      ("stack_map_frames", outline code.frames)]

end ClassFile
