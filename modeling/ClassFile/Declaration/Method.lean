import ClassFile.Code.Reading

/-! The methods that a class declares. -/

namespace ClassFile

/-- A declared method. -/
structure MethodDecl where
  access : MethodAccess
  name : MethodName
  descriptor : MethodDescriptor
  /-- The code, which all methods have but abstract and native ones. -/
  code : Option Code
  exceptions : List ClassName
  signature : Option Text
  isSynthetic : Bool
  isDeprecated : Bool
  deriving DecidableEq

/-- The number of instructions of a method, which is zero without code. -/
def MethodDecl.instructionCount (method : MethodDecl) : Nat :=
  match method.code with
  | some code => code.instructions.length
  | none => 0

/-- What the attributes of a method say. -/
structure MethodAttributes where
  code : Option Code
  exceptions : Option (List ClassName)
  signature : Option Text
  isSynthetic : Bool
  isDeprecated : Bool

/-- The first bytes of a method: everything before its attributes. -/
structure MethodHeader where
  access : MethodAccess
  name : MethodName
  descriptor : MethodDescriptor
  deriving DecidableEq

/-- What the methods of a class have in common. -/
structure MethodOwner where
  version : Version
  name : ClassName
  access : ClassAccess

namespace MethodHeader

def read (pool : Pool) : FileReader MethodHeader := do
  let access := MethodAccess.ofBits (← Reader.u16)
  let nameIndex ← Reader.u16
  let name ← Pool.nameAt nameIndex (MethodName.ofText? (← pool.utf8At nameIndex))
  let descriptorIndex ← Reader.u16
  let descriptor ← Pool.descriptorAt descriptorIndex
    (MethodDescriptor.parse (← pool.utf8At descriptorIndex))
  return ⟨access, name, descriptor⟩

/-- The slots that the parameters take, the receiver included. -/
def slots (header : MethodHeader) : Nat :=
  header.descriptor.parameterSlots.toNat + if header.access.isStatic then 0 else 1

/-- The first major version in which class initialization methods have no parameters. -/
def strictClinitMajor : UInt16 := 51

def check (header : MethodHeader) (owner : MethodOwner) : Except StructureFault Unit := do
  let name := header.name
  let descriptor := header.descriptor
  match header.access.check name owner.access owner.version with
  | .error fault => throw (.access fault)
  | .ok () => pure ()
  if (name.isInit || name.isClinit) && !descriptor.returnType.isVoid then
    throw (.initReturns name descriptor)
  if name.isClinit && owner.version.atLeast strictClinitMajor && !descriptor.parameters.isEmpty then
    throw (.clinitParameters descriptor)
  if maxParameterSlots.toNat < header.slots then
    throw (.tooManySlots name descriptor header.slots)

/-- What the verification of the code of a method needs to know. -/
def context (header : MethodHeader) (owner : MethodOwner) : MethodContext :=
  .ofAccess owner.version owner.name header.name header.descriptor header.access

end MethodHeader

namespace MethodAttributes

/-- What no attributes say. -/
def none : MethodAttributes := ⟨.none, .none, .none, false, false⟩

/-- Adds what an attribute says about a method. -/
def add (pool : Pool) (method : MethodContext) (hasCode keepBytes : Bool) (so : MethodAttributes) :
    Attribute → FileReader MethodAttributes
  | .code => do
    if !hasCode then FileReader.failStructure .unexpectedCode
    let code ← Code.read pool method keepBytes
    return { so with code := ← FileReader.fillOnce [.code] so.code code }
  | .exceptions => do
    let classes ← Reader.list (do pool.classAt (← Reader.u16) : FileReader ClassName)
    return { so with exceptions := ← FileReader.fillOnce [.exceptions] so.exceptions classes }
  | .signature => do
    let signature ← pool.utf8At (← Reader.u16)
    return { so with signature := ← FileReader.fillOnce [.signature] so.signature signature }
  | .synthetic => return { so with isSynthetic := true }
  | .deprecated => return { so with isDeprecated := true }
  | _ => do
    Reader.skipRest
    return so

end MethodAttributes

namespace MethodDecl

def ofParts (header : MethodHeader) (attributes : MethodAttributes) : MethodDecl where
  access := header.access
  name := header.name
  descriptor := header.descriptor
  code := attributes.code
  exceptions := attributes.exceptions.getD []
  signature := attributes.signature
  isSynthetic := attributes.isSynthetic
  isDeprecated := attributes.isDeprecated

/-- Checks the header of a method and reads its attributes. -/
def complete (pool : Pool) (owner : MethodOwner) (keepBytes : Bool) (header : MethodHeader) :
    FileReader MethodDecl := do
  match header.check owner with
  | .error fault => FileReader.failStructure fault
  | .ok () => pure ()
  let attributes ← AttributeTable.read pool .inMethod owner.version
    (MethodAttributes.add pool (header.context owner) header.access.hasCode keepBytes) .none
  if header.access.hasCode && attributes.code.isNone then FileReader.failStructure .missingCode
  return ofParts header attributes

def read (pool : Pool) (owner : MethodOwner) (keepBytes : Bool) : FileReader MethodDecl := do
  let header ← MethodHeader.read pool
  FileReader.within (.method header.name header.descriptor owner.name)
    (complete pool owner keepBytes header)

end MethodDecl

end ClassFile
