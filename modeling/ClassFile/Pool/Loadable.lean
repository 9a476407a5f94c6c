import ClassFile.Pool.Value

/-! The types of the constants that code can load, and the versions from which on it can. -/

namespace ClassFile

namespace BinaryName

def string : BinaryName := ⟨Text.ofString "java/lang/String", by decide⟩

def classObject : BinaryName := ⟨Text.ofString "java/lang/Class", by decide⟩

def methodHandle : BinaryName := ⟨Text.ofString "java/lang/invoke/MethodHandle", by decide⟩

def methodType : BinaryName := ⟨Text.ofString "java/lang/invoke/MethodType", by decide⟩

end BinaryName

namespace Loadable

/-- The type of the value that a constant stands for. -/
def type : Loadable → FieldType
  | .integer _ => .primitive .int
  | .float _ => .primitive .float
  | .long _ => .primitive .long
  | .double _ => .primitive .double
  | .string _ => .object .string
  | .classInfo _ => .object .classObject
  | .methodHandle _ => .object .methodHandle
  | .methodType _ => .object .methodType
  | .dynamic ref => ref.type

/-- The kind of a constant that not every version lets code load, and the first major version that
does. -/
def restriction? : Loadable → Option (Pool.Tag × UInt16)
  | .classInfo _ => some (.classInfo, 49)
  | .methodHandle _ => some (.methodHandle, 51)
  | .methodType _ => some (.methodType, 51)
  | _ => none

end Loadable

end ClassFile
