import ClassFile.Access
import ClassFile.Attribute
import ClassFile.Text.ModifiedUtf8
import ClassFile.Verification.Fault

/-! Errors of reading a class file: a fault, and where it was found. -/

namespace ClassFile

/-- What is wrong with the outermost frame of a class file. -/
inductive ContainerFault where
  | wrongMagic (found : UInt32)
  | version (fault : VersionFault)
  | emptyPool
  deriving DecidableEq

/-- Violations of the rules on the structure of a class file. -/
inductive StructureFault where
  /-- A window of some size of which only a part was read. -/
  | unread (what : String) (size position : Nat)
  | access (fault : AccessFault)
  | attributePlace (fault : AttributeFault)
  /-- A value that may be given only once, with the written forms of the values found. -/
  | repeated (old new : String)
  | arrayAsThis (name : ClassName)
  | noSuperClass (name : ClassName)
  | superOfObject (superClass : ClassName)
  | arrayAsSuper (name superClass : ClassName)
  | superOfInterface (name superClass : ClassName)
  | repeatedInterface (name : ClassName)
  | repeatedField (name : FieldName) (type : FieldType)
  | repeatedMethod (name : MethodName) (descriptor : MethodDescriptor)
  | misfitConstant (value : ConstantValue) (type : FieldType)
  | unexpectedCode
  | missingCode
  | initReturns (name : MethodName) (descriptor : MethodDescriptor)
  | clinitParameters (descriptor : MethodDescriptor)
  | tooManySlots (name : MethodName) (descriptor : MethodDescriptor) (slots : Nat)
  | nestHostAndMembers
  | trailingBytes (count : Nat)
  | tooManyBootstrapMethods
  | codeLength (length : UInt32)
  | verificationTag (tag : UInt8)
  | frameKind (kind : UInt8)
  | chop (count available : Nat)
  | sameFrameOffset (offset : UInt16)
  | emptyRange (start stop : UInt16)
  deriving DecidableEq

/-- Everything that can be wrong with a class file. -/
inductive Fault where
  | container (fault : ContainerFault)
  /-- The data ended before `wanted` bytes could be read. -/
  | truncated (offset wanted : Nat)
  | pool (located : Pool.Located)
  | structural (fault : StructureFault)
  /-- A fault of the code of a method, at the instruction that starts at `pc`. -/
  | code (pc : UInt16) (fault : CodeFault)
  | encoding (fault : ModifiedUtf8.Fault)
  deriving DecidableEq

/-- The places in which a fault can be found. -/
inductive Place where
  | readingEntry (index : UInt16) (tag : Pool.Tag)
  | validatingEntry (index : UInt16) (tag : Pool.Tag)
  | classAttributes (name : ClassName)
  | field (name : FieldName) (type : FieldType)
  | method (name : MethodName) (descriptor : MethodDescriptor) (owner : ClassName)
  | catchType (handler : UInt16)
  | variableTable (table : Attribute)
  /-- Another attribute of a kind of which only one is allowed. -/
  | secondOf (attributes : List Attribute)
  deriving DecidableEq

/-- A fault with the places in which it was found, the outermost one first. -/
structure Error where
  places : List Place
  fault : Fault
  deriving DecidableEq

def ContainerFault.message : ContainerFault → String
  | .wrongMagic found =>
    "wrong magic: got " ++ Text.hexNumber 0 found.toNat ++ ", expected 0xCAFEBABE"
  | .version fault => fault.message
  | .emptyPool => "constant_pool_count must be at least 1"

def StructureFault.message : StructureFault → String
  | .unread what size position =>
    what ++ " has length " ++ toString size ++ " but only " ++ toString position
      ++ " bytes were read"
  | .access fault => fault.message
  | .attributePlace fault => fault.message
  | .repeated old new => "got " ++ old ++ " and " ++ new
  | .arrayAsThis name => "this_class must not be an array class, got " ++ name.display
  | .noSuperClass name =>
    "class " ++ name.display ++ " has no super class, only java/lang/Object can have none"
  | .superOfObject superClass =>
    "java/lang/Object can't have a super class, got " ++ superClass.display
  | .arrayAsSuper name superClass =>
    "the super class of " ++ name.display ++ " can't be the array class " ++ superClass.display
  | .superOfInterface name superClass =>
    "the super class of interface " ++ name.display ++ " must be java/lang/Object, got "
      ++ superClass.display
  | .repeatedInterface name => "interface " ++ name.display ++ " is listed twice"
  | .repeatedField name type =>
    "field " ++ name.display ++ " " ++ type.display ++ " is declared twice"
  | .repeatedMethod name descriptor =>
    "method " ++ name.display ++ " " ++ descriptor.display ++ " is declared twice"
  | .misfitConstant value type =>
    "constant value " ++ (outline value).render ++ " doesn't fit descriptor " ++ type.display
  | .unexpectedCode => "abstract and native methods can't have a Code attribute"
  | .missingCode => "a method that is neither abstract nor native must have a Code attribute"
  | .initReturns name descriptor =>
    name.display ++ " must return void, but has descriptor " ++ descriptor.display
  | .clinitParameters descriptor =>
    "<clinit> can't take parameters, but has descriptor " ++ descriptor.display
  | .tooManySlots name descriptor slots =>
    "the parameters of method " ++ name.display ++ " " ++ descriptor.display ++ " take "
      ++ toString slots ++ " slots, at most 255 are allowed"
  | .nestHostAndMembers => "a class can't have both a NestHost and a NestMembers attribute"
  | .trailingBytes count =>
    "there are " ++ toString count ++ " bytes after the end of the class file"
  | .tooManyBootstrapMethods => "too many bootstrap methods"
  | .codeLength length =>
    "code_length must be greater than zero and less than 65536, got " ++ toString length.toNat
  | .verificationTag tag => "unknown verification_type_info tag " ++ toString tag.toNat
  | .frameKind kind => "unknown stack map frame type " ++ toString kind.toNat
  | .chop count available =>
    "chop frame removes " ++ toString count ++ " locals, but there are only "
      ++ toString available
  | .sameFrameOffset offset => "two StackMap frames at offset " ++ toString offset.toNat
  | .emptyRange start stop =>
    "exception handler range " ++ toString start.toNat ++ ".." ++ toString stop.toNat
      ++ " is empty"

def Fault.message : Fault → String
  | .container fault => "malformed class file: " ++ fault.message
  | .truncated offset wanted =>
    "unexpected end of data: wanted " ++ toString wanted ++ " bytes at offset " ++ toString offset
  | .pool located => located.message
  | .structural fault => fault.message
  | .code pc fault => "at bytecode offset " ++ toString pc.toNat ++ ": " ++ fault.message
  | .encoding fault => "invalid modified utf8: " ++ fault.message

def Place.message : Place → String
  | .readingEntry index tag =>
    "while reading constant pool entry #" ++ toString index.toNat ++ " (" ++ tag.name ++ ")"
  | .validatingEntry index tag =>
    "while validating constant pool entry #" ++ toString index.toNat ++ " (" ++ tag.name ++ ")"
  | .classAttributes name => "while reading the attributes of class " ++ name.display
  | .field name type => "while reading field " ++ name.display ++ " " ++ type.display
  | .method name descriptor owner =>
    "while reading method " ++ name.display ++ " " ++ descriptor.display ++ " of class "
      ++ owner.display
  | .catchType handler => "catch type of exception handler at " ++ toString handler.toNat
  | .variableTable table => "in " ++ table.name ++ " attribute"
  | .secondOf attributes =>
    "only one " ++ Outline.separated " or " (attributes.map Attribute.name)
      ++ " attribute is allowed"

namespace Error

/-- The places and the fault, the outermost place first. -/
def chain (error : Error) : List String := error.places.map Place.message ++ [error.fault.message]

/-- An error seen from inside code: where the fault lies no longer matters, only its nature. -/
def asCodeFault (error : Error) : CodeFault :=
  match error.fault with
  | .truncated _ _ => .notEnoughBytes
  | .pool located => .pool located
  | .code _ fault => fault
  | fault => .malformed (.elsewhere fault.message)

end Error

end ClassFile
