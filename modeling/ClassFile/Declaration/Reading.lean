import ClassFile.Declaration.Type
import ClassFile.Pool.Reading
import ClassFile.Pool.Validity

/-! Reading a class file as a whole. The milestones on the way are kept, so that one can tell how far the
reading of a file came, even if it fails in the end. -/

namespace ClassFile

/-- What was read of a class file. -/
inductive Milestone where
  | version (version : Version) (release : Release)
  | pool (count : UInt16)
  | method (name : MethodName) (descriptor : MethodDescriptor)
  | type (name : ClassName) (fields methods : Nat)
  deriving DecidableEq

/-- A cursor, and the milestones that were passed, the last one first. -/
structure Session where
  cursor : Cursor
  milestones : List Milestone

abbrev SessionReader := EStateM Error Session

namespace SessionReader

/-- Reads a part that passes no milestone. -/
def ofFileReader {α : Type} (reader : FileReader α) : SessionReader α := fun session =>
  match reader session.cursor with
  | .ok value cursor => .ok value { session with cursor }
  | .error error cursor => .error error { session with cursor }

instance : MonadLift FileReader SessionReader := ⟨ofFileReader⟩

def pass (milestone : Milestone) : SessionReader Unit :=
  modify fun session => { session with milestones := milestone :: session.milestones }

end SessionReader

namespace TypeDecl

/-- The first four bytes of a class file. -/
def magic : UInt32 := 0xCAFEBABE

/-- Reads the magic number and the version, which comes with its minor part first. -/
def readPreamble : FileReader Version := do
  let found ← Reader.u32
  if found ≠ magic then FileReader.fail (.container (.wrongMagic found))
  let minor ← Reader.u16
  let major ← Reader.u16
  return ⟨major, minor⟩

/-- Reads the version, which has to be a supported one. -/
def readVersion : SessionReader Version := do
  let version ← readPreamble
  match version.release with
  | .error fault => FileReader.fail (.container (.version fault))
  | .ok release => do
    SessionReader.pass (.version version release)
    return version

/-- Reads the constant pool and checks it. -/
def readPool (version : Version) : SessionReader Pool := do
  let pool ← Pool.read version
  SessionReader.pass (.pool pool.count)
  FileReader.ofExcept (pool.validate version)
  return pool

def checkSuper (name : ClassName) (superClass : Option ClassName) (access : ClassAccess) :
    Except StructureFault Unit :=
  match superClass with
  | none => if name.isObject || access.isModule then .ok () else .error (.noSuperClass name)
  | some superClass =>
    if name.isObject then .error (.superOfObject superClass)
    else if superClass.isArray then .error (.arrayAsSuper name superClass)
    else if access.isInterface && !superClass.isObject then
      .error (.superOfInterface name superClass)
    else .ok ()

/-- A type before its members: what it is, and what it extends and implements. -/
structure Header where
  access : ClassAccess
  name : ClassName
  superClass : Option ClassName
  interfaces : List ClassName

/-- Takes the result of a check of structure. -/
def ofCheck {ε : Type} (fault : ε → StructureFault) : Except ε Unit → FileReader Unit
  | .ok () => pure ()
  | .error found => FileReader.failStructure (fault found)

/-- Reads a further interface. `so` holds those before it, the last one first. -/
def readInterface (pool : Pool) (so : List ClassName) : FileReader (List ClassName) := do
  let name ← pool.classAt (← Reader.u16)
  if so.contains name then FileReader.failStructure (.repeatedInterface name)
  return name :: so

/-- Reads everything between the constant pool and the members. -/
def readHeader (pool : Pool) (version : Version) : FileReader Header := do
  let access := ClassAccess.ofBits (← Reader.u16)
  ofCheck .access (access.check version)
  let name ← pool.classAt (← Reader.u16)
  if name.isArray then FileReader.failStructure (.arrayAsThis name)
  let superClass ← Pool.optional pool.classAt (← Reader.u16)
  ofCheck id (checkSuper name superClass access)
  let count ← Reader.u16
  let interfaces ← iterate (readInterface pool) [] count.toNat
  return ⟨access, name, superClass, interfaces.reverse⟩

/-- Reads a further field. `so` holds those before it, the last one first. -/
def readField (pool : Pool) (version : Version) (owner : ClassAccess) (so : List FieldDecl) :
    FileReader (List FieldDecl) := do
  let field ← FieldDecl.read pool version owner
  if so.any fun other => other.name = field.name ∧ other.type = field.type then
    FileReader.failStructure (.repeatedField field.name field.type)
  return field :: so

def readFields (pool : Pool) (version : Version) (owner : ClassAccess) :
    FileReader (List FieldDecl) := do
  let count ← Reader.u16
  let fields ← iterate (readField pool version owner) [] count.toNat
  return fields.reverse

/-- Reads a further method. `so` holds those before it, the last one first. -/
def readMethod (pool : Pool) (owner : MethodOwner) (keepBytes : Bool) (so : List MethodDecl) :
    SessionReader (List MethodDecl) := do
  let method ← MethodDecl.read pool owner keepBytes
  SessionReader.pass (.method method.name method.descriptor)
  if so.any fun other => other.name = method.name ∧ other.descriptor = method.descriptor then
    FileReader.failStructure (.repeatedMethod method.name method.descriptor)
  return method :: so

def readMethods (pool : Pool) (owner : MethodOwner) (keepBytes : Bool) :
    SessionReader (List MethodDecl) := do
  let count ← (Reader.u16 : FileReader UInt16)
  let methods ← iterate (readMethod pool owner keepBytes) [] count.toNat
  return methods.reverse

/-- The type that is made of its parts. -/
def ofParts (version : Version) (header : Header) (fields : List FieldDecl)
    (methods : List MethodDecl) (attributes : TypeAttributes) : TypeDecl where
  version := version
  access := header.access
  name := header.name
  superClass := header.superClass
  interfaces := header.interfaces
  fields := fields
  methods := methods
  sourceFile := attributes.sourceFile
  signature := attributes.signature
  innerClasses := attributes.innerClasses.getD []
  enclosingMethod := attributes.enclosingMethod
  bootstrapMethods := attributes.bootstrapMethods.getD []
  nestHost := attributes.nestHost
  nestMembers := attributes.nestMembers.getD []
  permittedSubclasses := attributes.permittedSubclasses.getD []
  isSynthetic := attributes.isSynthetic
  isDeprecated := attributes.isDeprecated

/-- The most bootstrap methods that an index can tell apart. -/
def maxBootstrapMethods : Nat := 0xffff

/-- Checks what can be checked only when everything is read: nothing follows, and there are all the
bootstrap methods that the pool refers to. -/
def checkEnd (pool : Pool) (decl : TypeDecl) : FileReader Unit := do
  let cursor ← get
  if !cursor.isEmpty then FileReader.failStructure (.trailingBytes cursor.remaining)
  let count := decl.bootstrapMethods.length
  if maxBootstrapMethods < count then FileReader.failStructure .tooManyBootstrapMethods
  pool.checkBootstrap (UInt16.ofNat count)

def read (keepBytes : Bool) : SessionReader TypeDecl := do
  let version ← readVersion
  let pool ← readPool version
  let header ← readHeader pool version
  let fields ← readFields pool version header.access
  let methods ← readMethods pool ⟨version, header.name, header.access⟩ keepBytes
  let attributes ← FileReader.within (.classAttributes header.name)
    (TypeAttributes.read pool version)
  let decl := ofParts version header fields methods attributes
  checkEnd pool decl
  SessionReader.pass (.type decl.name decl.fields.length decl.methods.length)
  return decl

/-- Reads the bytes of a class file, and tells which milestones were passed, the first one first. -/
def trace (keepBytes : Bool) (bytes : List UInt8) : Except Error TypeDecl × List Milestone :=
  match read keepBytes ⟨Cursor.ofBytes bytes, []⟩ with
  | .ok decl session => (.ok decl, session.milestones.reverse)
  | .error error session => (.error error, session.milestones.reverse)

/-- The type that the bytes of a class file declare. -/
def ofBytes (keepBytes : Bool) (bytes : List UInt8) : Except Error TypeDecl :=
  (trace keepBytes bytes).1

end TypeDecl

end ClassFile
