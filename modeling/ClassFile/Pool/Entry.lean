import ClassFile.Descriptor.ClassName
import ClassFile.Version

/-! The entries of a constant pool, as a class file holds them: references to other entries are kept as
indices, and floating point values as their bits. -/

namespace ClassFile.Pool

/-- The kinds of entries. -/
inductive Tag where
  | utf8 | integer | float | long | double | classInfo | string | fieldRef | methodRef
  | interfaceMethodRef | nameAndType | methodHandle | methodType | dynamic | invokeDynamic
  | moduleInfo | packageInfo
  deriving DecidableEq, Repr

namespace Tag

/-- All kinds of entries. -/
def all : List Tag :=
  [.utf8, .integer, .float, .long, .double, .classInfo, .string, .fieldRef, .methodRef,
    .interfaceMethodRef, .nameAndType, .methodHandle, .methodType, .dynamic, .invokeDynamic,
    .moduleInfo, .packageInfo]

/-- The byte that marks entries of a kind. -/
def byte : Tag → UInt8
  | .utf8 => 1
  | .integer => 3
  | .float => 4
  | .long => 5
  | .double => 6
  | .classInfo => 7
  | .string => 8
  | .fieldRef => 9
  | .methodRef => 10
  | .interfaceMethodRef => 11
  | .nameAndType => 12
  | .methodHandle => 15
  | .methodType => 16
  | .dynamic => 17
  | .invokeDynamic => 18
  | .moduleInfo => 19
  | .packageInfo => 20

/-- The kind of entries that a byte marks. -/
def ofByte? (b : UInt8) : Option Tag := all.find? fun tag => tag.byte = b

/-- The name of a kind of entries. -/
def name : Tag → String
  | .utf8 => "Utf8"
  | .integer => "Integer"
  | .float => "Float"
  | .long => "Long"
  | .double => "Double"
  | .classInfo => "Class"
  | .string => "String"
  | .fieldRef => "Fieldref"
  | .methodRef => "Methodref"
  | .interfaceMethodRef => "InterfaceMethodref"
  | .nameAndType => "NameAndType"
  | .methodHandle => "MethodHandle"
  | .methodType => "MethodType"
  | .dynamic => "Dynamic"
  | .invokeDynamic => "InvokeDynamic"
  | .moduleInfo => "Module"
  | .packageInfo => "Package"

/-- The first version in which entries of a kind may stand. -/
def introducedIn : Tag → Version
  | .methodHandle | .methodType | .invokeDynamic => ⟨51, 0⟩
  | .moduleInfo | .packageInfo => ⟨53, 0⟩
  | .dynamic => ⟨55, 0⟩
  | _ => ⟨45, 0⟩

/-- Whether entries of a kind take two indices. -/
def isWide : Tag → Bool
  | .long | .double => true
  | _ => false

end Tag

/-- An entry of a constant pool. -/
inductive Entry where
  | utf8 (text : Text)
  | integer (value : Int32)
  | float (bits : UInt32)
  | long (value : Int64)
  | double (bits : UInt64)
  | classInfo (name : UInt16)
  | string (text : UInt16)
  | fieldRef (owner member : UInt16)
  | methodRef (owner member : UInt16)
  | interfaceMethodRef (owner member : UInt16)
  | nameAndType (name descriptor : UInt16)
  | methodHandle (kind : UInt8) (reference : UInt16)
  | methodType (descriptor : UInt16)
  | dynamic (bootstrap member : UInt16)
  | invokeDynamic (bootstrap member : UInt16)
  | moduleInfo (name : UInt16)
  | packageInfo (name : UInt16)
  deriving DecidableEq

namespace Entry

/-- The kind of an entry. -/
def tag : Entry → Tag
  | .utf8 _ => .utf8
  | .integer _ => .integer
  | .float _ => .float
  | .long _ => .long
  | .double _ => .double
  | .classInfo _ => .classInfo
  | .string _ => .string
  | .fieldRef _ _ => .fieldRef
  | .methodRef _ _ => .methodRef
  | .interfaceMethodRef _ _ => .interfaceMethodRef
  | .nameAndType _ _ => .nameAndType
  | .methodHandle _ _ => .methodHandle
  | .methodType _ => .methodType
  | .dynamic _ _ => .dynamic
  | .invokeDynamic _ _ => .invokeDynamic
  | .moduleInfo _ => .moduleInfo
  | .packageInfo _ => .packageInfo

/-- The indices that an entry refers to. -/
def references : Entry → List UInt16
  | .utf8 _ | .integer _ | .float _ | .long _ | .double _ => []
  | .classInfo index | .string index | .methodType index | .moduleInfo index | .packageInfo index =>
    [index]
  | .fieldRef owner member | .methodRef owner member | .interfaceMethodRef owner member =>
    [owner, member]
  | .nameAndType name descriptor => [name, descriptor]
  | .methodHandle _ reference => [reference]
  | .dynamic _ member | .invokeDynamic _ member => [member]

end Entry

/-- What a place expects of the entry that it refers to. -/
inductive Expected where
  | utf8 | classInfo | string | nameAndType | fieldRef | methodRef | anyMethodRef
  | interfaceMethodRef | methodHandle | methodType | dynamic | invokeDynamic | loadable | constant
  deriving DecidableEq, Repr

namespace Expected

/-- The kinds of entries that meet an expectation. -/
def accepts : Expected → Tag → Bool
  | .utf8, .utf8 | .classInfo, .classInfo | .string, .string | .nameAndType, .nameAndType
  | .fieldRef, .fieldRef | .methodRef, .methodRef | .anyMethodRef, .methodRef
  | .anyMethodRef, .interfaceMethodRef | .interfaceMethodRef, .interfaceMethodRef
  | .methodHandle, .methodHandle | .methodType, .methodType | .dynamic, .dynamic
  | .invokeDynamic, .invokeDynamic => true
  | .loadable, .integer | .loadable, .float | .loadable, .long | .loadable, .double
  | .loadable, .string | .loadable, .classInfo | .loadable, .methodHandle | .loadable, .methodType
  | .loadable, .dynamic => true
  | .constant, .integer | .constant, .float | .constant, .long | .constant, .double
  | .constant, .string => true
  | _, _ => false

/-- The words for an expectation. -/
def label : Expected → String
  | .utf8 => "Utf8"
  | .classInfo => "Class"
  | .string => "String"
  | .nameAndType => "NameAndType"
  | .fieldRef => "Fieldref"
  | .methodRef => "Methodref"
  | .anyMethodRef => "Methodref or InterfaceMethodref"
  | .interfaceMethodRef => "InterfaceMethodref"
  | .methodHandle => "MethodHandle"
  | .methodType => "MethodType"
  | .dynamic => "Dynamic"
  | .invokeDynamic => "InvokeDynamic"
  | .loadable => "a loadable constant"
  | .constant => "Integer, Float, Long, Double or String"

end Expected

/-- The kinds of method handles. -/
inductive HandleKind where
  | getField | getStatic | putField | putStatic | invokeVirtual | invokeStatic | invokeSpecial
  | newInvokeSpecial | invokeInterface
  deriving DecidableEq, Repr

namespace HandleKind

/-- The kinds of method handles in the order of their numbers, which start at one. -/
def all : List HandleKind :=
  [.getField, .getStatic, .putField, .putStatic, .invokeVirtual, .invokeStatic, .invokeSpecial,
    .newInvokeSpecial, .invokeInterface]

/-- The kind of method handles with a number. -/
def ofNumber? (n : UInt8) : Option HandleKind := if n = 0 then none else all[n.toNat - 1]?

/-- The name of a kind of method handles. -/
def name : HandleKind → String
  | .getField => "GetField"
  | .getStatic => "GetStatic"
  | .putField => "PutField"
  | .putStatic => "PutStatic"
  | .invokeVirtual => "InvokeVirtual"
  | .invokeStatic => "InvokeStatic"
  | .invokeSpecial => "InvokeSpecial"
  | .newInvokeSpecial => "NewInvokeSpecial"
  | .invokeInterface => "InvokeInterface"

/-- What a kind of method handles expects of the entry it refers to. -/
def expects : HandleKind → Expected
  | .getField | .getStatic | .putField | .putStatic => .fieldRef
  | .invokeVirtual | .newInvokeSpecial => .methodRef
  | .invokeStatic | .invokeSpecial => .anyMethodRef
  | .invokeInterface => .interfaceMethodRef

end HandleKind

end ClassFile.Pool
