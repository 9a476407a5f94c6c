import ClassFile.Pool.Fault

/-! The values that the entries of a constant pool stand for. -/

namespace ClassFile

/-- A reference to a field. -/
structure FieldRef where
  owner : ClassName
  name : FieldName
  type : FieldType
  deriving DecidableEq

/-- A reference to a method; `ofInterface` tells how the entry that held it was marked. -/
structure MethodRef where
  owner : ClassName
  name : MethodName
  descriptor : MethodDescriptor
  ofInterface : Bool
  deriving DecidableEq

/-- What a method handle refers to. -/
inductive MemberRef where
  | field (ref : FieldRef)
  | method (ref : MethodRef)
  deriving DecidableEq

/-- A method handle. -/
structure MethodHandle where
  kind : Pool.HandleKind
  member : MemberRef
  deriving DecidableEq

/-- A name and a descriptor that were not looked at yet, with the indices they came from. -/
structure NameAndType where
  name : Text
  nameIndex : UInt16
  descriptor : Text
  descriptorIndex : UInt16
  deriving DecidableEq

/-- A constant that a bootstrap method computes. -/
structure DynamicRef where
  bootstrap : UInt16
  name : FieldName
  type : FieldType
  deriving DecidableEq

/-- A call site that a bootstrap method computes. -/
structure CallSiteRef where
  bootstrap : UInt16
  name : MethodName
  descriptor : MethodDescriptor
  deriving DecidableEq

/-- A constant that code can load, and that can be an argument of a bootstrap method. -/
inductive Loadable where
  | integer (value : Int32)
  | float (bits : UInt32)
  | long (value : Int64)
  | double (bits : UInt64)
  | string (text : Text)
  | classInfo (name : ClassName)
  | methodHandle (handle : MethodHandle)
  | methodType (descriptor : MethodDescriptor)
  | dynamic (ref : DynamicRef)
  deriving DecidableEq

/-- The constant value of a field. -/
inductive ConstantValue where
  | integer (value : Int32)
  | float (bits : UInt32)
  | long (value : Int64)
  | double (bits : UInt64)
  | string (text : Text)
  deriving DecidableEq

namespace ConstantValue

/-- The constant that a field with a constant value holds. -/
def loadable : ConstantValue → Loadable
  | .integer value => .integer value
  | .float bits => .float bits
  | .long value => .long value
  | .double bits => .double bits
  | .string text => .string text

/-- The name of the class of strings. -/
def stringClass : Text := Text.ofString "java/lang/String"

/-- Whether a field of a type can have a constant value. -/
def fits (value : ConstantValue) (type : FieldType) : Bool :=
  if type.isArray then false
  else
    match value, type.base with
    | .integer _, .primitive kind => kind.category = .int
    | .float _, .primitive kind => kind.category = .float
    | .long _, .primitive kind => kind.category = .long
    | .double _, .primitive kind => kind.category = .double
    | .string _, .object name => name.text = stringClass
    | _, _ => false

end ConstantValue

instance : Outlined FieldRef where
  outline ref := .record "FieldRef"
    [("class", outline ref.owner), ("name", outline ref.name),
      ("descriptor", ref.type.descriptorOutline)]

instance : Outlined MethodRef where
  outline ref := .record "MethodRef"
    [("class", outline ref.owner), ("name", outline ref.name),
      ("descriptor", outline ref.descriptor), ("interface", outline ref.ofInterface)]

instance : Outlined MemberRef where
  outline
    | .field ref => .node "Field" [outline ref]
    | .method ref => .node "Method" [outline ref]

instance : Outlined MethodHandle where
  outline handle := .record "MethodHandle"
    [("kind", .leaf handle.kind.name), ("member", outline handle.member)]

instance : Outlined DynamicRef where
  outline ref := .record "DynamicRef"
    [("bootstrap_method", outline ref.bootstrap), ("name", outline ref.name),
      ("descriptor", ref.type.descriptorOutline)]

instance : Outlined Loadable where
  outline
    | .integer value => .node "Integer" [outline value]
    | .float bits => .node "Float" [outline bits]
    | .long value => .node "Long" [outline value]
    | .double bits => .node "Double" [outline bits]
    | .string text => .node "String" [outline text]
    | .classInfo name => .node "Class" [outline name]
    | .methodHandle handle => .node "MethodHandle" [outline handle]
    | .methodType descriptor => .node "MethodType" [outline descriptor]
    | .dynamic ref => .node "Dynamic" [outline ref]

instance : Outlined ConstantValue where
  outline
    | .integer value => .node "Integer" [outline value]
    | .float bits => .node "Float" [outline bits]
    | .long value => .node "Long" [outline value]
    | .double bits => .node "Double" [outline bits]
    | .string text => .node "String" [outline text]

end ClassFile
