import ClassFile.Descriptor.Type

/-! Method descriptors, and what can be wrong with descriptors. The parameters of a method take at
most 255 slots. The slots are counted in a sixteen bit word, and counting stops where the word
overflows, which is before they are compared with their bound. -/

namespace ClassFile

/-- The sum of two words, unless it overflows. -/
def checkedAdd? (a b : UInt16) : Option UInt16 :=
  if a.toNat + b.toNat < UInt16.size then some (a + b) else none

/-- The slots that parameters take, unless counting them overflows. -/
def slotsOf? (parameters : List FieldType) : Option UInt16 :=
  parameters.foldlM (fun sum t => checkedAdd? sum t.size) 0

/-- The most slots that the parameters of a method may take. -/
def maxParameterSlots : UInt16 := 255

/-- The parameter types and the return type of a method. -/
structure MethodDescriptor where
  parameters : List FieldType
  returnType : ReturnType
  fits : ∃ slots ∈ slotsOf? parameters, slots ≤ maxParameterSlots
  deriving DecidableEq

/-- Why a text is not a descriptor, or why types don't make one. -/
inductive DescriptorFault where
  | tooManyDimensions (whole : Text)
  | endsAbruptly (whole : Text)
  | unexpected (whole : Text) (found : CodePoint)
  | leftOver (whole rest : Text)
  | noParenthesis (whole : Text)
  | badClassName (fault : NameFault)
  | arrayOfVoid
  | deepArray (element : FieldType)
  | voidParameter
  | tooManySlots (parameters : List FieldType) (returnType : ReturnType) (slots : UInt16)
  /-- The slots can't be counted. This is no fault that is reported: the program stops at the sum. -/
  | slotOverflow
  deriving DecidableEq

def displayMethod (parameters : List FieldType) (returnType : ReturnType) : String :=
  "(" ++ String.join (parameters.map FieldType.display) ++ ")" ++ returnType.display

namespace DescriptorFault

/-- The wording of a fault of a descriptor as a whole. -/
def about (whole : Text) (reason : String) : String := "descriptor " ++ whole.quoted ++ " " ++ reason

def message : DescriptorFault → String
  | .tooManyDimensions whole => about whole "has more than 255 array dimensions"
  | .endsAbruptly whole => about whole "ends abruptly"
  | .unexpected whole found => about whole ("has unexpected char " ++ Text.quotedPoint found)
  | .leftOver whole rest => about whole ("has " ++ rest.quoted ++ " remaining")
  | .noParenthesis whole => about whole "doesn't start with '('"
  | .badClassName fault => fault.message
  | .arrayOfVoid => "there are no arrays of void"
  | .deepArray element => "array of " ++ element.display ++ " would have more than 255 dimensions"
  | .voidParameter => "a parameter can't be void"
  | .tooManySlots parameters returnType slots =>
    "method descriptor " ++ displayMethod parameters returnType ++ " takes "
      ++ toString slots.toNat ++ " slots for its parameters, at most 255 are allowed"
  | .slotOverflow => "attempt to add with overflow"

end DescriptorFault

namespace FieldType

/-- The type of arrays with elements of a type. -/
def arrayOf (t : FieldType) : Except DescriptorFault FieldType :=
  if t.dimensions = 255 then .error (.deepArray t) else .ok ⟨t.base, t.dimensions + 1⟩

end FieldType

namespace ReturnType

/-- The type of arrays with elements of a type. -/
def arrayOf : ReturnType → Except DescriptorFault ReturnType
  | .void => .error .arrayOfVoid
  | .value t => t.arrayOf.map .value

/-- The type with the same base and another number of dimensions. -/
def withDimensions (t : ReturnType) (dimensions : UInt8) : Except DescriptorFault ReturnType :=
  match t with
  | .void => if dimensions = 0 then .ok .void else .error .arrayOfVoid
  | .value t => .ok (.value ⟨t.base, dimensions⟩)

/-- The type as one that has values. -/
def field? : ReturnType → Option FieldType
  | .void => none
  | .value t => some t

end ReturnType

namespace MethodDescriptor

/-- The descriptor with these parameters, if they fit. -/
def ofParameters? (parameters : List FieldType) (returnType : ReturnType) :
    Except DescriptorFault MethodDescriptor :=
  match h : slotsOf? parameters with
  | none => .error .slotOverflow
  | some slots =>
    if hle : slots ≤ maxParameterSlots then .ok ⟨parameters, returnType, slots, h, hle⟩
    else .error (.tooManySlots parameters returnType slots)

/-- The descriptor with these parameters, if none of them is void and they fit. -/
def ofTypes? (parameters : List ReturnType) (returnType : ReturnType) :
    Except DescriptorFault MethodDescriptor :=
  match parameters.mapM ReturnType.field? with
  | none => .error .voidParameter
  | some parameters => ofParameters? parameters returnType

/-- The slots that the parameters take, without the receiver. -/
def parameterSlots (d : MethodDescriptor) : UInt16 :=
  (slotsOf? d.parameters).get (Option.isSome_iff_exists.mpr (d.fits.imp fun _ h => h.1))

def descriptor (d : MethodDescriptor) : Text :=
  CodePoint.ofChar '(' :: (d.parameters.flatMap FieldType.descriptor
    ++ CodePoint.ofChar ')' :: d.returnType.descriptor)

def display (d : MethodDescriptor) : String := displayMethod d.parameters d.returnType

end MethodDescriptor

instance : Outlined MethodDescriptor where
  outline d := .record "MethodDescriptor"
    [("parameters", outline d.parameters), ("return_type", outline d.returnType)]

end ClassFile
