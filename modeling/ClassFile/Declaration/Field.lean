import ClassFile.AttributeTable

/-! The fields that a class declares. -/

namespace ClassFile

/-- A declared field. -/
structure FieldDecl where
  access : FieldAccess
  name : FieldName
  type : FieldType
  constantValue : Option ConstantValue
  signature : Option Text
  isSynthetic : Bool
  isDeprecated : Bool
  deriving DecidableEq

namespace FieldDecl

/-- Reads a constant value, which has to be one of the type of the field. -/
def readConstant (pool : Pool) (type : FieldType) : FileReader ConstantValue := do
  let value ← pool.constantAt (← Reader.u16)
  if !value.fits type then FileReader.failStructure (.misfitConstant value type)
  return value

/-- Adds what an attribute says about a field. -/
def add (pool : Pool) (so : FieldDecl) : Attribute → FileReader FieldDecl
  | .constantValue => do
    let value ← readConstant pool so.type
    return { so with
      constantValue := ← FileReader.fillOnce [.constantValue] so.constantValue value }
  | .signature => do
    let signature ← pool.utf8At (← Reader.u16)
    return { so with signature := ← FileReader.fillOnce [.signature] so.signature signature }
  | .synthetic => return { so with isSynthetic := true }
  | .deprecated => return { so with isDeprecated := true }
  | _ => do
    Reader.skipRest
    return so

/-- A field of which nothing but the name and the type is known. -/
def bare (access : FieldAccess) (name : FieldName) (type : FieldType) : FieldDecl :=
  ⟨access, name, type, none, none, false, false⟩

/-- Checks the access flags of a field and reads its attributes. -/
def complete (pool : Pool) (version : Version) (owner : ClassAccess) (field : FieldDecl) :
    FileReader FieldDecl := do
  match field.access.check owner with
  | .error fault => FileReader.failStructure (.access fault)
  | .ok () => AttributeTable.read pool .inField version (add pool) field

def read (pool : Pool) (version : Version) (owner : ClassAccess) : FileReader FieldDecl := do
  let access := FieldAccess.ofBits (← Reader.u16)
  let nameIndex ← Reader.u16
  let name ← Pool.nameAt nameIndex (FieldName.ofText? (← pool.utf8At nameIndex))
  let typeIndex ← Reader.u16
  let type ← Pool.descriptorAt typeIndex (FieldType.parse (← pool.utf8At typeIndex))
  FileReader.within (.field name type) (complete pool version owner (bare access name type))

end FieldDecl

end ClassFile
