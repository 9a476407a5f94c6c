import ClassFile.Declaration.Field
import ClassFile.Declaration.Method

/-! The type that a class file declares: a class, an interface or a module with its members and
attributes. -/

namespace ClassFile

/-- A class that is declared inside another. -/
structure InnerClass where
  inner : ClassName
  outer : Option ClassName
  name : Option Text
  flags : UInt16
  deriving DecidableEq

/-- The class, and perhaps the method, in which a class is declared. -/
structure EnclosingMethod where
  owner : ClassName
  method : Option (MethodName × MethodDescriptor)
  deriving DecidableEq

/-- A method that computes constants or call sites, with its fixed arguments. -/
structure BootstrapMethod where
  handle : MethodHandle
  arguments : List Loadable
  deriving DecidableEq

/-- What the attributes of a type say. -/
structure TypeAttributes where
  sourceFile : Option Text
  signature : Option Text
  innerClasses : Option (List InnerClass)
  enclosingMethod : Option EnclosingMethod
  bootstrapMethods : Option (List BootstrapMethod)
  nestHost : Option ClassName
  nestMembers : Option (List ClassName)
  permittedSubclasses : Option (List ClassName)
  isSynthetic : Bool
  isDeprecated : Bool

/-- A declared type that was read and verified as a whole. -/
structure TypeDecl where
  version : Version
  access : ClassAccess
  name : ClassName
  /-- The super class, which everything has but the root of the class hierarchy and modules. -/
  superClass : Option ClassName
  interfaces : List ClassName
  fields : List FieldDecl
  methods : List MethodDecl
  sourceFile : Option Text
  signature : Option Text
  innerClasses : List InnerClass
  enclosingMethod : Option EnclosingMethod
  bootstrapMethods : List BootstrapMethod
  nestHost : Option ClassName
  nestMembers : List ClassName
  permittedSubclasses : List ClassName
  isSynthetic : Bool
  isDeprecated : Bool
  deriving DecidableEq

namespace TypeDecl

def field? (decl : TypeDecl) (name : FieldName) (type : FieldType) : Option FieldDecl :=
  decl.fields.find? fun field => field.name = name ∧ field.type = type

def method? (decl : TypeDecl) (name : MethodName) (descriptor : MethodDescriptor) :
    Option MethodDecl :=
  decl.methods.find? fun method => method.name = name ∧ method.descriptor = descriptor

/-- The number of instructions of all methods. -/
def instructionCount (decl : TypeDecl) : Nat :=
  decl.methods.foldr (fun method n => method.instructionCount + n) 0

end TypeDecl

instance : Outlined InnerClass where
  outline inner := .record "InnerClass"
    [("inner_class", outline inner.inner), ("outer_class", outline inner.outer),
      ("inner_name", outline inner.name), ("flags", outline inner.flags)]

instance : Outlined EnclosingMethod where
  outline enclosing := .record "EnclosingMethod"
    [("class", outline enclosing.owner), ("method", outline enclosing.method)]

instance : Outlined BootstrapMethod where
  outline bootstrap := .record "BootstrapMethod"
    [("handle", outline bootstrap.handle), ("arguments", outline bootstrap.arguments)]

namespace InnerClass

def read (pool : Pool) : FileReader InnerClass := do
  let inner ← pool.classAt (← Reader.u16)
  let outer ← Pool.optional pool.classAt (← Reader.u16)
  let name ← Pool.optional pool.utf8At (← Reader.u16)
  let flags ← Reader.u16
  return ⟨inner, outer, name, flags⟩

end InnerClass

namespace EnclosingMethod

/-- The method that a name and type stands for. -/
def methodOf (pair : NameAndType) : Except Pool.Located (MethodName × MethodDescriptor) := do
  let name ← Pool.methodNameOf pair
  let descriptor ← Pool.methodDescriptorOf pair
  .ok (name, descriptor)

/-- Reads the place in which a class is declared. -/
def read (pool : Pool) : FileReader EnclosingMethod := do
  let owner ← pool.classAt (← Reader.u16)
  let pair ← Pool.optional pool.nameAndTypeAt (← Reader.u16)
  let method ← pair.mapM fun pair => FileReader.ofPool (methodOf pair)
  return ⟨owner, method⟩

end EnclosingMethod

def BootstrapMethod.read (pool : Pool) : FileReader BootstrapMethod := do
  let handle ← pool.methodHandleAt (← Reader.u16)
  let arguments ← Reader.list (do pool.loadableAt (← Reader.u16) : FileReader Loadable)
  return ⟨handle, arguments⟩

namespace TypeAttributes

/-- What no attributes say. -/
def none : TypeAttributes :=
  ⟨.none, .none, .none, .none, .none, .none, .none, .none, false, false⟩

def readClasses (pool : Pool) : FileReader (List ClassName) :=
  Reader.list (do pool.classAt (← Reader.u16))

/-- Adds what an attribute says about a type. Annotations, records, modules and debug extensions are not
interpreted. -/
def add (pool : Pool) (so : TypeAttributes) : Attribute → FileReader TypeAttributes
  | .sourceFile => do
    let file ← pool.utf8At (← Reader.u16)
    return { so with sourceFile := ← FileReader.fillOnce [.sourceFile] so.sourceFile file }
  | .signature => do
    let signature ← pool.utf8At (← Reader.u16)
    return { so with signature := ← FileReader.fillOnce [.signature] so.signature signature }
  | .innerClasses => do
    let classes ← Reader.list (InnerClass.read pool)
    return { so with
      innerClasses := ← FileReader.fillOnce [.innerClasses] so.innerClasses classes }
  | .enclosingMethod => do
    let enclosing ← EnclosingMethod.read pool
    return { so with
      enclosingMethod := ← FileReader.fillOnce [.enclosingMethod] so.enclosingMethod enclosing }
  | .bootstrapMethods => do
    let methods ← Reader.list (BootstrapMethod.read pool)
    return { so with
      bootstrapMethods := ← FileReader.fillOnce [.bootstrapMethods] so.bootstrapMethods methods }
  | .nestHost => do
    let host ← pool.classAt (← Reader.u16)
    return { so with nestHost := ← FileReader.fillOnce [.nestHost] so.nestHost host }
  | .nestMembers => do
    let members ← readClasses pool
    return { so with nestMembers := ← FileReader.fillOnce [.nestMembers] so.nestMembers members }
  | .permittedSubclasses => do
    let classes ← readClasses pool
    return { so with
      permittedSubclasses :=
        ← FileReader.fillOnce [.permittedSubclasses] so.permittedSubclasses classes }
  | .synthetic => return { so with isSynthetic := true }
  | .deprecated => return { so with isDeprecated := true }
  | _ => do
    Reader.skipRest
    return so

/-- Reads the attributes of a type. It cannot be both the host and a member of a nest. -/
def read (pool : Pool) (version : Version) : FileReader TypeAttributes := do
  let attributes ← AttributeTable.read pool .inClass version (add pool) none
  if attributes.nestHost.isSome && attributes.nestMembers.isSome then
    FileReader.failStructure .nestHostAndMembers
  return attributes

end TypeAttributes

end ClassFile
