import ClassFile.Code
import ClassFile.FileReader
import ClassFile.Pool.Resolve

/-! The tables that stand beside the instructions of a method: exception handlers, line numbers and local
variables. -/

namespace ClassFile

def ExceptionHandler.read (pool : Pool) : FileReader ExceptionHandler := do
  let start ← Reader.u16
  let stop ← Reader.u16
  let handler ← Reader.u16
  let index ← Reader.u16
  let catchType ← FileReader.within (.catchType handler)
    (FileReader.ofPool (Pool.optional pool.classAt index))
  return ⟨start, stop, handler, catchType⟩

def LineNumber.read : FileReader LineNumber := return ⟨← Reader.u16, ← Reader.u16⟩

/-- Reads a local variable with its type. -/
def LocalVariable.read (pool : Pool) : FileReader LocalVariable := do
  let start ← Reader.u16
  let length ← Reader.u16
  let name ← pool.utf8At (← Reader.u16)
  let typeIndex ← Reader.u16
  let type ← Pool.descriptorAt typeIndex (FieldType.parse (← pool.utf8At typeIndex))
  let index ← Reader.u16
  return ⟨start, length, name, index, some type, none⟩

/-- The generic signature of a local variable. -/
structure VariableSignature where
  start : UInt16
  length : UInt16
  name : Text
  index : UInt16
  signature : Text
  deriving DecidableEq

namespace VariableSignature

/-- Reads the signature of a local variable. -/
def read (pool : Pool) : FileReader VariableSignature := do
  let start ← Reader.u16
  let length ← Reader.u16
  let name ← pool.utf8At (← Reader.u16)
  let signature ← pool.utf8At (← Reader.u16)
  let index ← Reader.u16
  return ⟨start, length, name, index, signature⟩

def describes (s : VariableSignature) (v : LocalVariable) : Bool :=
  v.start = s.start && v.length = s.length && v.index = s.index && v.name = s.name

/-- The variable of which no more than its signature is known. -/
def toVariable (s : VariableSignature) : LocalVariable :=
  ⟨s.start, s.length, s.name, s.index, none, some s.signature⟩

/-- Gives a signature to the first variable that it describes. A signature that describes none becomes a
variable of its own, behind the others. -/
def attachTo (s : VariableSignature) : List LocalVariable → List LocalVariable
  | [] => [s.toVariable]
  | v :: rest =>
    if s.describes v then { v with signature := some s.signature } :: rest
    else v :: s.attachTo rest

end VariableSignature

/-- Gives signatures to variables, one after the other. -/
def attachSignatures (localVariables : List LocalVariable) (signatures : List VariableSignature) :
    List LocalVariable :=
  signatures.foldl (fun localVariables s => s.attachTo localVariables) localVariables

end ClassFile
