import ClassFile.Pool.Entry

/-! What can be wrong with a constant pool. A fault is always found at an index: that of the entry that
is malformed, or the one that a reference names. -/

namespace ClassFile.Pool

/-- Content of an entry that is not what it has to be. -/
inductive Content where
  | name (fault : NameFault)
  | descriptor (fault : DescriptorFault)
  | clinitReference
  | initReturns (descriptor : MethodDescriptor)
  | handleNumber (number : UInt8)
  | handleNeedsInit (name : MethodName)
  | handleOfInit (kind : HandleKind)
  | callSiteName (name : MethodName)
  | interfaceHandle
  deriving DecidableEq

/-- A violation of the rules of a constant pool. -/
inductive Fault where
  | outOfRange (count : UInt16)
  | zeroIndex
  | wrongTag (expected : Expected) (actual : Tag)
  | selfReference
  | duplicateInsertion
  /-- A wide entry whose second index does not exist. -/
  | successorBeyond (tag : Tag)
  /-- A wide entry whose second index is taken. -/
  | successorOccupied (tag : Tag)
  | phantomSlot
  | vacant
  | unknownTag (byte : UInt8)
  | tagNotAllowed (tag : Tag)
  | bootstrapIndex (index count : UInt16)
  | invalidContent (content : Content)
  deriving DecidableEq

/-- A fault with the index at which it was found. -/
structure Located where
  index : UInt16
  fault : Fault
  deriving DecidableEq

/-- The wording of content that is not what it has to be. -/
def Content.message : Content → String
  | .name f => f.message
  | .descriptor f => f.message
  | .clinitReference => "`<clinit>` can't be referred to"
  | .initReturns d => "`<init>` must return void, but has descriptor " ++ d.display
  | .handleNumber number =>
    "method handle reference kind " ++ toString number.toNat ++ " is not in the range 1 to 9"
  | .handleNeedsInit found =>
    "method handle of kind newInvokeSpecial must refer to `<init>`, got " ++ found.display
  | .handleOfInit kind => "method handle of kind " ++ kind.name ++ " can't refer to `<init>`"
  | .callSiteName found => "a call site can't be named " ++ found.display
  | .interfaceHandle =>
    "method handles of kind invokeStatic or invokeSpecial may only refer to interface methods "
      ++ "from version 52 on"

def Fault.message : Fault → String
  | .outOfRange count =>
    "index is out of range for a constant pool with count " ++ toString count.toNat
  | .zeroIndex => "index zero doesn't refer to an entry"
  | .wrongTag expected actual => "expected " ++ expected.label ++ ", got " ++ actual.name
  | .selfReference => "entry refers to itself"
  | .duplicateInsertion => "index is already occupied"
  | .successorBeyond tag =>
    "the second slot of this " ++ tag.name ++ " entry is beyond the constant pool count"
  | .successorOccupied tag =>
    "the second slot of this " ++ tag.name ++ " entry is already occupied"
  | .phantomSlot => "index refers to the unusable second slot of a Long or Double entry"
  | .vacant => "index was never filled"
  | .unknownTag byte => "unknown constant pool tag " ++ toString byte.toNat
  | .tagNotAllowed tag =>
    tag.name ++ " entries are not allowed before class file version " ++ tag.introducedIn.display
  | .bootstrapIndex index count =>
    "bootstrap method index " ++ toString index.toNat ++ " is out of range, there are "
      ++ toString count.toNat ++ " bootstrap methods"
  | .invalidContent content => content.message

/-- The wording of a fault with its index. -/
def Located.message (located : Located) : String :=
  "constant pool entry #" ++ toString located.index.toNat ++ ": " ++ located.fault.message

end ClassFile.Pool
