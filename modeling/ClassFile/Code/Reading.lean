import ClassFile.AttributeTable
import ClassFile.Code.Frames
import ClassFile.Code.Tables
import ClassFile.Verification.Boundaries
import ClassFile.Verification.Pass

/-! Reading the code of a method, and verifying it on the way. -/

namespace ClassFile

/-- What the attributes of code say. -/
structure CodeAttributes where
  lines : List LineNumber
  localVariables : List LocalVariable
  signatures : List VariableSignature
  frames : Option (List StackMapFrame)

namespace CodeAttributes

/-- What no attributes say. -/
def none : CodeAttributes := ⟨[], [], [], .none⟩

/-- The attributes that hold frames, of which only one is allowed. -/
def frameAttributes : List Attribute := [.stackMapTable, .stackMap]

def addFrames (so : CodeAttributes) (frames : List StackMapFrame) : FileReader CodeAttributes := do
  return { so with frames := ← FileReader.fillOnce frameAttributes so.frames frames }

/-- Adds what an attribute says. The other tables may be spread over several attributes. -/
def add (pool : Pool) (method : MethodContext) (codeLength : UInt16) (so : CodeAttributes) :
    Attribute → FileReader CodeAttributes
  | .lineNumberTable => do
    let lines ← Reader.list LineNumber.read
    return { so with lines := so.lines ++ lines }
  | .localVariableTable => do
    let localVariables ← FileReader.within (.variableTable .localVariableTable)
      (Reader.list (LocalVariable.read pool))
    return { so with localVariables := so.localVariables ++ localVariables }
  | .localVariableTypeTable => do
    let signatures ← FileReader.within (.variableTable .localVariableTypeTable)
      (Reader.list (VariableSignature.read pool))
    return { so with signatures := so.signatures ++ signatures }
  | .stackMapTable => do so.addFrames (← readFrames pool method.initialLocals codeLength)
  | .stackMap => do so.addFrames (← readFullFrames pool codeLength)
  | _ => do
    Reader.skipRest
    return so

end CodeAttributes

/-- The code of a method as it was read, before its instructions are looked at. -/
structure RawCode where
  maxStack : UInt16
  maxLocals : UInt16
  bytes : List UInt8
  handlers : List ExceptionHandler
  attributes : CodeAttributes

namespace RawCode

def read (pool : Pool) (method : MethodContext) : FileReader RawCode := do
  let maxStack ← Reader.u16
  let maxLocals ← Reader.u16
  let length ← Reader.u32
  if length = 0 ∨ 0xffff < length then FileReader.failStructure (.codeLength length)
  let bytes ← Reader.bytes length.toNat
  let handlers ← Reader.list (ExceptionHandler.read pool)
  let attributes ← AttributeTable.read pool .inCode method.version
    (CodeAttributes.add pool method length.toUInt16) .none
  return ⟨maxStack, maxLocals, bytes, handlers, attributes⟩

def codeLength (raw : RawCode) : UInt16 := UInt16.ofNat raw.bytes.length

/-- The local variables with their signatures. -/
def localVariables (raw : RawCode) : List LocalVariable :=
  attachSignatures raw.attributes.localVariables raw.attributes.signatures

/-- The frames, of which there are none if they were not given. -/
def frames (raw : RawCode) : List StackMapFrame := raw.attributes.frames.getD []

/-- What the verification of the code starts from. -/
def premises (raw : RawCode) (method : MethodContext) : Premises where
  method := method
  maxStack := raw.maxStack
  maxLocals := raw.maxLocals
  handlers := raw.handlers
  lines := LineIndex.ofLines raw.attributes.lines
  localVariables := raw.localVariables
  frames := raw.frames

/-- Verifies the instructions, and returns the steps of the verification. -/
def verify (raw : RawCode) (pool : Pool) (method : MethodContext) : Except Error (List PassStep) :=
  (raw.premises method).verify raw.codeLength (listing pool method raw.bytes)

/-- The code with its verified instructions. The bytes are part of it if they are asked for. -/
def withSteps (raw : RawCode) (keepBytes : Bool) (steps : List PassStep) : Code where
  maxStack := raw.maxStack
  maxLocals := raw.maxLocals
  codeLength := raw.codeLength
  bytes := if keepBytes then some raw.bytes else .none
  instructions := steps.map PassStep.verified
  exceptionTable := raw.handlers
  lineNumbers := raw.attributes.lines
  localVariables := raw.localVariables
  frames := raw.frames

/-- Checks the code as a whole. -/
def check (raw : RawCode) (pool : Pool) (method : MethodContext) (keepBytes : Bool) :
    Except Error Code := do
  raw.localVariables.forM fun v => v.check raw.maxLocals raw.codeLength
  let code := raw.withSteps keepBytes (← raw.verify pool method)
  (Boundaries.ofInstructions code.codeLength code.instructions).check code
  return code

end RawCode

/-- Reads and verifies the code of a method. -/
def Code.read (pool : Pool) (method : MethodContext) (keepBytes : Bool) : FileReader Code := do
  let raw ← RawCode.read pool method
  FileReader.ofExcept (raw.check pool method keepBytes)

end ClassFile
