import ClassFile.Name
import ClassFile.Version

/-! Access flags of classes, fields and methods, and the combinations of them that are allowed. Bits
without a meaning are ignored. -/

namespace ClassFile

/-- Writes the words of the flags that are set. -/
def displayFlags (label : String) (flags : List (Bool × String)) : String :=
  label ++ " \x7b " ++ String.join ((flags.filter (·.1)).map (·.2 ++ " ")) ++ "\x7d"

/-- The access flags of a class. -/
structure ClassAccess where
  isPublic : Bool
  isFinal : Bool
  isSuper : Bool
  isInterface : Bool
  isAbstract : Bool
  isSynthetic : Bool
  isAnnotationType : Bool
  isEnum : Bool
  isModule : Bool
  deriving DecidableEq

/-- The access flags of a field. -/
structure FieldAccess where
  isPublic : Bool
  isPrivate : Bool
  isProtected : Bool
  isStatic : Bool
  isFinal : Bool
  isVolatile : Bool
  isTransient : Bool
  isSynthetic : Bool
  isEnum : Bool
  deriving DecidableEq

/-- The access flags of a method. -/
structure MethodAccess where
  isPublic : Bool
  isPrivate : Bool
  isProtected : Bool
  isStatic : Bool
  isFinal : Bool
  isSynchronized : Bool
  isBridge : Bool
  isVarargs : Bool
  isNative : Bool
  isAbstract : Bool
  isStrict : Bool
  isSynthetic : Bool
  deriving DecidableEq

/-- Combinations of access flags that are not allowed. -/
inductive AccessFault where
  | moduleVersion
  | moduleFlags (access : ClassAccess)
  | concreteInterface (access : ClassAccess)
  | finalInterface (access : ClassAccess)
  | superInterface (access : ClassAccess)
  | annotationClass (access : ClassAccess)
  | abstractFinal (access : ClassAccess)
  | fieldVisibility (access : FieldAccess)
  | finalVolatile (access : FieldAccess)
  | interfaceField (access : FieldAccess)
  | methodVisibility (access : MethodAccess)
  | clinitNotStatic (access : MethodAccess)
  | interfaceMethodFlags (access : MethodAccess)
  | interfaceMethodVisibility (access : MethodAccess)
  | oldInterfaceMethod (access : MethodAccess)
  | interfaceInit
  | abstractMethod (access : MethodAccess)
  | initFlags (access : MethodAccess)
  deriving DecidableEq

/-- Whether two words share a bit. -/
def hasBit (flags mask : UInt16) : Bool := flags &&& mask ≠ 0

/-- What kind of type a class declares. -/
inductive TypeKind where
  | ofClass | ofInterface | ofAnnotationType | ofEnum | ofModule
  deriving DecidableEq, Repr

/-- The word for a kind of type. -/
def TypeKind.name : TypeKind → String
  | .ofClass => "class"
  | .ofInterface => "interface"
  | .ofAnnotationType => "annotation"
  | .ofEnum => "enum"
  | .ofModule => "module"

namespace ClassAccess

/-- Reads the flags of a class from their bits. -/
def ofBits (bits : UInt16) : ClassAccess where
  isPublic := hasBit bits 0x0001
  isFinal := hasBit bits 0x0010
  isSuper := hasBit bits 0x0020
  isInterface := hasBit bits 0x0200
  isAbstract := hasBit bits 0x0400
  isSynthetic := hasBit bits 0x1000
  isAnnotationType := hasBit bits 0x2000
  isEnum := hasBit bits 0x4000
  isModule := hasBit bits 0x8000

/-- The written form of the flags of a class. -/
def display (a : ClassAccess) : String :=
  displayFlags "ClassAccess"
    [(a.isPublic, "public"), (a.isFinal, "final"), (a.isSuper, "super"),
      (a.isInterface, "interface"), (a.isAbstract, "abstract"), (a.isSynthetic, "synthetic"),
      (a.isAnnotationType, "annotation"), (a.isEnum, "enum"), (a.isModule, "module")]

/-- What kind of type the flags declare. -/
def kind (a : ClassAccess) : TypeKind :=
  if a.isModule then .ofModule
  else if a.isAnnotationType then .ofAnnotationType
  else if a.isInterface then .ofInterface
  else if a.isEnum then .ofEnum
  else .ofClass

/-- Who can see a class. -/
def visibility (a : ClassAccess) : String := if a.isPublic then "Public" else "Package"

/-- Whether a class can be instantiated and extended. -/
def completeness (a : ClassAccess) : String :=
  if a.isAbstract then "Abstract" else if a.isFinal then "Final" else "Concrete"

/-- Checks the flags of an interface. -/
def checkInterface (a : ClassAccess) (version : Version) : Except AccessFault Unit :=
  if !a.isAbstract then .error (.concreteInterface a)
  else if a.isFinal then .error (.finalInterface a)
  else if version.atLeast 49 && (a.isSuper || a.isEnum) then .error (.superInterface a)
  else .ok ()

/-- Checks the flags of a class that is neither an interface nor a module. -/
def checkClass (a : ClassAccess) (version : Version) : Except AccessFault Unit :=
  if version.atLeast 49 && a.isAnnotationType then .error (.annotationClass a)
  else if a.isAbstract && a.isFinal then .error (.abstractFinal a)
  else .ok ()

/-- Checks the flags of a class. A module has no other flag. -/
def check (a : ClassAccess) (version : Version) : Except AccessFault Unit :=
  if a.isModule then
    if !version.atLeast 53 then .error .moduleVersion
    else if a ≠ { ofBits 0 with isModule := true } then .error (.moduleFlags a)
    else .ok ()
  else if a.isInterface then a.checkInterface version
  else a.checkClass version

end ClassAccess

/-- Whether more than one of three flags is set. -/
def severalOf (a b c : Bool) : Bool := 1 < a.toNat + b.toNat + c.toNat

namespace FieldAccess

/-- Reads the flags of a field from their bits. -/
def ofBits (bits : UInt16) : FieldAccess where
  isPublic := hasBit bits 0x0001
  isPrivate := hasBit bits 0x0002
  isProtected := hasBit bits 0x0004
  isStatic := hasBit bits 0x0008
  isFinal := hasBit bits 0x0010
  isVolatile := hasBit bits 0x0040
  isTransient := hasBit bits 0x0080
  isSynthetic := hasBit bits 0x1000
  isEnum := hasBit bits 0x4000

/-- The written form of the flags of a field. -/
def display (a : FieldAccess) : String :=
  displayFlags "FieldAccess"
    [(a.isPublic, "public"), (a.isPrivate, "private"), (a.isProtected, "protected"),
      (a.isStatic, "static"), (a.isFinal, "final"), (a.isVolatile, "volatile"),
      (a.isTransient, "transient"), (a.isSynthetic, "synthetic"), (a.isEnum, "enum")]

/-- The flags of the fields of interfaces: public, static, final, and synthetic or not. -/
def ofInterface (isSynthetic : Bool) : FieldAccess :=
  { ofBits 0x0019 with isSynthetic }

/-- Checks the flags of a field of a class. -/
def check (a : FieldAccess) (owner : ClassAccess) : Except AccessFault Unit :=
  if severalOf a.isPublic a.isPrivate a.isProtected then .error (.fieldVisibility a)
  else if a.isFinal && a.isVolatile then .error (.finalVolatile a)
  else if owner.isInterface && a ≠ ofInterface a.isSynthetic then .error (.interfaceField a)
  else .ok ()

end FieldAccess

namespace MethodAccess

/-- Reads the flags of a method from their bits. -/
def ofBits (bits : UInt16) : MethodAccess where
  isPublic := hasBit bits 0x0001
  isPrivate := hasBit bits 0x0002
  isProtected := hasBit bits 0x0004
  isStatic := hasBit bits 0x0008
  isFinal := hasBit bits 0x0010
  isSynchronized := hasBit bits 0x0020
  isBridge := hasBit bits 0x0040
  isVarargs := hasBit bits 0x0080
  isNative := hasBit bits 0x0100
  isAbstract := hasBit bits 0x0400
  isStrict := hasBit bits 0x0800
  isSynthetic := hasBit bits 0x1000

/-- The written form of the flags of a method. -/
def display (a : MethodAccess) : String :=
  displayFlags "MethodAccess"
    [(a.isPublic, "public"), (a.isPrivate, "private"), (a.isProtected, "protected"),
      (a.isStatic, "static"), (a.isFinal, "final"), (a.isSynchronized, "synchronized"),
      (a.isBridge, "bridge"), (a.isVarargs, "varargs"), (a.isNative, "native"),
      (a.isAbstract, "abstract"), (a.isStrict, "strict"), (a.isSynthetic, "synthetic")]

def hasCode (a : MethodAccess) : Bool := !a.isAbstract && !a.isNative

/-- Checks the flags of a method of an interface. -/
def checkInterface (a : MethodAccess) (name : MethodName) (version : Version) :
    Except AccessFault Unit :=
  if version.atLeast 52 && (a.isProtected || a.isFinal || a.isSynchronized || a.isNative) then
    .error (.interfaceMethodFlags a)
  else if version.atLeast 52 && a.isPublic == a.isPrivate then
    .error (.interfaceMethodVisibility a)
  else if !version.atLeast 52 && (!a.isPublic || !a.isAbstract || a.isStatic || a.isFinal
      || a.isSynchronized || a.isNative || a.isStrict) then
    .error (.oldInterfaceMethod a)
  else if name.isInit then
    .error .interfaceInit
  else
    .ok ()

/-- Checks the flags of an abstract method. Floating point strictness could not be asked of it while
there was a difference. -/
def checkAbstract (a : MethodAccess) (version : Version) : Except AccessFault Unit :=
  let strictForbidden := version.atLeast 46 && !version.atLeast 61
  if a.isPrivate || a.isStatic || a.isFinal || a.isSynchronized || a.isNative
      || (strictForbidden && a.isStrict) then
    .error (.abstractMethod a)
  else
    .ok ()

/-- Checks the flags of an instance initialization method. -/
def checkInit (a : MethodAccess) : Except AccessFault Unit :=
  if a.isStatic || a.isFinal || a.isSynchronized || a.isBridge || a.isNative || a.isAbstract then
    .error (.initFlags a)
  else
    .ok ()

/-- Checks the flags of a method of a class. Of the flags of a class initialization method only
`static` counts. -/
def check (a : MethodAccess) (name : MethodName) (owner : ClassAccess) (version : Version) :
    Except AccessFault Unit := do
  if severalOf a.isPublic a.isPrivate a.isProtected then
    .error (.methodVisibility a)
  else if name.isClinit then
    if version.atLeast 51 && !a.isStatic then .error (.clinitNotStatic a) else .ok ()
  else
    if owner.isInterface then a.checkInterface name version
    if a.isAbstract then a.checkAbstract version
    if name.isInit then a.checkInit

end MethodAccess

def AccessFault.message : AccessFault → String
  | .moduleVersion => "ACC_MODULE is not allowed before class file version 53"
  | .moduleFlags a =>
    "a module may not have other access flags than ACC_MODULE, got " ++ a.display
  | .concreteInterface a => "an interface must be abstract, got " ++ a.display
  | .finalInterface a => "an interface can't be final, got " ++ a.display
  | .superInterface a => "an interface can't have ACC_SUPER or ACC_ENUM, got " ++ a.display
  | .annotationClass a => "an annotation type must be an interface, got " ++ a.display
  | .abstractFinal a => "a class can't be both abstract and final, got " ++ a.display
  | .fieldVisibility a =>
    "a field can have at most one of public, private and protected, got " ++ a.display
  | .finalVolatile a => "a field can't be both final and volatile, got " ++ a.display
  | .interfaceField a =>
    "a field of an interface must be exactly public, static and final, got " ++ a.display
  | .methodVisibility a =>
    "a method can have at most one of public, private and protected, got " ++ a.display
  | .clinitNotStatic a =>
    "`<clinit>` must be static from class file version 51 on, got " ++ a.display
  | .interfaceMethodFlags a =>
    "an interface method can't be protected, final, synchronized or native, got " ++ a.display
  | .interfaceMethodVisibility a =>
    "an interface method must be exactly one of public and private, got " ++ a.display
  | .oldInterfaceMethod a =>
    "an interface method must be public abstract before class file version 52, got " ++ a.display
  | .interfaceInit => "an interface can't have an instance initialization method"
  | .abstractMethod a =>
    "an abstract method can't be private, static, final, synchronized, native or strict, got "
      ++ a.display
  | .initFlags a =>
    "`<init>` can't be static, final, synchronized, bridge, native or abstract, got " ++ a.display

end ClassFile
