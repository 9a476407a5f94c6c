import ClassFile.Access
import ClassFile.Instruction

/-! The method whose code is verified. -/

namespace ClassFile

/-- What verification needs to know of a method. -/
structure MethodContext where
  version : Version
  owner : ClassName
  name : MethodName
  descriptor : MethodDescriptor
  isStatic : Bool
  /-- Whether floating point arithmetic rounds strictly. -/
  strict : Bool
  deriving DecidableEq

namespace MethodContext

/-- The first major version in which all arithmetic is strict. -/
def alwaysStrictMajor : UInt16 := 61

/-- The context of a method with given access flags. -/
def ofAccess (version : Version) (owner : ClassName) (name : MethodName)
    (descriptor : MethodDescriptor) (access : MethodAccess) : MethodContext where
  version := version
  owner := owner
  name := name
  descriptor := descriptor
  isStatic := access.isStatic
  strict := access.isStrict || version.atLeast alwaysStrictMajor

/-- Whether arithmetic on a kind of numbers is marked as strict. -/
def isStrictOn (method : MethodContext) (kind : NumericKind) : Bool :=
  kind.isFloating && method.strict

end MethodContext

end ClassFile
