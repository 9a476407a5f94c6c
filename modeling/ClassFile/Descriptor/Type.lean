import ClassFile.Name

/-! Types as descriptors write them, and the categories of values that the machine computes with.
`void` is a return type and nothing else, so every other type has values and a category. -/

namespace ClassFile

/-- The types of values as the machine computes with them. All of the small integer types are computed
as `int`. -/
inductive Category where
  | int | float | long | double | reference | returnAddress
  deriving DecidableEq, Repr

namespace Category

/-- Values of a wide category take two slots, all others take one. -/
def isWide : Category → Bool
  | .long | .double => true
  | _ => false

/-- The number of slots that a value takes. -/
def size (c : Category) : UInt16 := if c.isWide then 2 else 1

/-- The categories that arithmetic works on. -/
def isNumeric : Category → Bool
  | .int | .float | .long | .double => true
  | .reference | .returnAddress => false

/-- The word for a category. -/
def name : Category → String
  | .int => "int"
  | .float => "float"
  | .long => "long"
  | .double => "double"
  | .reference => "reference"
  | .returnAddress => "returnAddress"

end Category

/-- The primitive types. -/
inductive Primitive where
  | byte | char | double | float | int | long | short | boolean
  deriving DecidableEq, Repr

namespace Primitive

def letter : Primitive → Char
  | .byte => 'B'
  | .char => 'C'
  | .double => 'D'
  | .float => 'F'
  | .int => 'I'
  | .long => 'J'
  | .short => 'S'
  | .boolean => 'Z'

/-- The primitive types in the order of their letters. -/
def all : List Primitive := [.byte, .char, .double, .float, .int, .long, .short, .boolean]

def ofLetter? (c : CodePoint) : Option Primitive :=
  all.find? fun p => c = CodePoint.ofChar p.letter

/-- The category of the values of a primitive type. -/
def category : Primitive → Category
  | .byte | .char | .int | .short | .boolean => .int
  | .double => .double
  | .float => .float
  | .long => .long

def name : Primitive → String
  | .byte => "Byte"
  | .char => "Char"
  | .double => "Double"
  | .float => "Float"
  | .int => "Int"
  | .long => "Long"
  | .short => "Short"
  | .boolean => "Boolean"

end Primitive

instance : Outlined Primitive := ⟨fun p => .leaf p.name⟩

/-- What a type is built on, before its array dimensions. -/
inductive BaseType where
  | primitive (kind : Primitive)
  | object (name : BinaryName)
  deriving DecidableEq

/-- A type that has values: a base type with up to 255 array dimensions. -/
structure FieldType where
  base : BaseType
  dimensions : UInt8
  deriving DecidableEq

/-- What a method returns: nothing, or values of a type. -/
inductive ReturnType where
  | void
  | value (type : FieldType)
  deriving DecidableEq

namespace BaseType

def descriptor : BaseType → Text
  | .primitive kind => [CodePoint.ofChar kind.letter]
  | .object name => CodePoint.ofChar 'L' :: (name.text ++ [CodePoint.ofChar ';'])

def display : BaseType → String
  | .primitive kind => kind.letter.toString
  | .object name => "L" ++ name.text.display ++ ";"

/-- The category of the values of a base type. -/
def category : BaseType → Category
  | .primitive kind => kind.category
  | .object _ => .reference

end BaseType

namespace FieldType

def primitive (kind : Primitive) : FieldType := ⟨.primitive kind, 0⟩

/-- The type of the instances of a class. -/
def object (name : BinaryName) : FieldType := ⟨.object name, 0⟩

def isArray (t : FieldType) : Bool := 0 < t.dimensions

/-- The category of the values of a type. -/
def category (t : FieldType) : Category := if t.isArray then .reference else t.base.category

/-- The number of slots that values of a type take. -/
def size (t : FieldType) : UInt16 := t.category.size

/-- The type of the elements of an array type. -/
def component? (t : FieldType) : Option FieldType :=
  if t.isArray then some ⟨t.base, t.dimensions - 1⟩ else none

/-- The descriptor of a type: a bracket for each dimension, then the base type. -/
def descriptor (t : FieldType) : Text :=
  List.replicate t.dimensions.toNat (CodePoint.ofChar '[') ++ t.base.descriptor

def display (t : FieldType) : String :=
  String.ofList (List.replicate t.dimensions.toNat '[') ++ t.base.display

end FieldType

namespace ReturnType

/-- Whether nothing is returned. -/
def isVoid : ReturnType → Bool
  | .void => true
  | .value _ => false

/-- Whether an array is returned. -/
def isArray : ReturnType → Bool
  | .void => false
  | .value t => t.isArray

/-- The type of the elements of an array that is returned. -/
def component? : ReturnType → Option FieldType
  | .void => none
  | .value t => t.component?

/-- The category of what is returned. -/
def category? : ReturnType → Option Category
  | .void => none
  | .value t => some t.category

/-- The number of slots that what is returned takes. -/
def size : ReturnType → UInt16
  | .void => 0
  | .value t => t.size

def descriptor : ReturnType → Text
  | .void => [CodePoint.ofChar 'V']
  | .value t => t.descriptor

def display : ReturnType → String
  | .void => "V"
  | .value t => t.display

end ReturnType

def typeOutline (base : Outline) (dimensions : UInt8) : Outline :=
  .record "InternalTypeName" [("base", base), ("dimensions", outline dimensions)]

instance : Outlined BaseType where
  outline
    | .primitive kind => .node "Primitive" [outline kind]
    | .object name => .node "Reference" [.node "ClassName" [outline name.text]]

instance : Outlined FieldType := ⟨fun t => typeOutline (outline t.base) t.dimensions⟩

instance : Outlined ReturnType where
  outline
    | .void => typeOutline (.leaf "Void") 0
    | .value t => outline t

/-- The outline of a type that stands as the descriptor of a field or variable. -/
def FieldType.descriptorOutline (t : FieldType) : Outline := .node "FieldDescriptor" [outline t]

end ClassFile
