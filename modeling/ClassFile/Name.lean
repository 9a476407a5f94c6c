import ClassFile.Outline

/-! The names of classes, fields and methods. A binary name is a sequence of segments separated by
slashes; the names of members are single segments, and of the method names in angle brackets only the
two special ones exist. -/

namespace ClassFile

/-- What a name names. -/
inductive NameKind where
  | ofClass | ofField | ofMethod
  deriving DecidableEq, Repr

/-- What is wrong with a name. -/
inductive NameDefect where
  | emptySegment
  | reservedInSegment
  | unfinished
  | empty
  | reserved
  | angleBracket
  deriving DecidableEq, Repr

/-- A text that is not a name of its kind. -/
structure NameFault where
  kind : NameKind
  text : Text
  defect : NameDefect
  deriving DecidableEq

/-- The word for a kind of name. -/
def NameKind.label : NameKind → String
  | .ofClass => "class name"
  | .ofField => "field name"
  | .ofMethod => "method name"

/-- The wording of a defect. -/
def NameDefect.label : NameDefect → String
  | .emptySegment => "has an empty segment"
  | .reservedInSegment => "contains one of `.`, `;` or `[`"
  | .unfinished => "is empty or ends with `/`"
  | .empty => "is empty"
  | .reserved => "contains one of `.`, `;`, `[` or `/`"
  | .angleBracket => "contains `<` or `>`"

def NameFault.message (fault : NameFault) : String :=
  fault.kind.label ++ " " ++ fault.text.quoted ++ " " ++ fault.defect.label

/-- The code points that no unqualified name holds. -/
def CodePoint.isReserved (c : CodePoint) : Bool :=
  c = CodePoint.ofChar '.' || c = CodePoint.ofChar ';' || c = CodePoint.ofChar '['
    || c = CodePoint.ofChar '/'

namespace BinaryName

/-- The defect of a binary name of which the part before `t` was read; `inSegment` says whether the
current segment has begun. -/
def defectFrom? (inSegment : Bool) : Text → Option NameDefect
  | [] => if inSegment then none else some .unfinished
  | c :: rest =>
    if c = CodePoint.ofChar '/' then
      if inSegment then defectFrom? false rest else some .emptySegment
    else if c.isReserved then
      some .reservedInSegment
    else
      defectFrom? true rest

/-- The defect of a text as a binary name, if it has one. -/
def defect? (t : Text) : Option NameDefect := defectFrom? false t

end BinaryName

/-- A class name in internal form, such as `java/lang/Object`. Array classes have no binary name. -/
structure BinaryName where
  text : Text
  valid : BinaryName.defect? text = none
  deriving DecidableEq

def BinaryName.ofText? (t : Text) : Except NameFault BinaryName :=
  match h : BinaryName.defect? t with
  | none => .ok ⟨t, h⟩
  | some defect => .error ⟨.ofClass, t, defect⟩

/-- The defect of a text as an unqualified name, if it has one. -/
def unqualifiedDefect? (t : Text) : Option NameDefect :=
  if t.isEmpty then some .empty
  else if t.any CodePoint.isReserved then some .reserved
  else none

/-- The name of a field. -/
structure FieldName where
  text : Text
  valid : unqualifiedDefect? text = none
  deriving DecidableEq

namespace FieldName

def ofText? (t : Text) : Except NameFault FieldName :=
  match h : unqualifiedDefect? t with
  | none => .ok ⟨t, h⟩
  | some defect => .error ⟨.ofField, t, defect⟩

def display (name : FieldName) : String := name.text.display

end FieldName

namespace MethodName

/-- The name of instance initialization methods. -/
def initText : Text := Text.ofString "<init>"

/-- The name of class initialization methods. -/
def clinitText : Text := Text.ofString "<clinit>"

/-- The defect of a text as a method name, if it has one. -/
def defect? (t : Text) : Option NameDefect :=
  if t = initText ∨ t = clinitText then none
  else
    match unqualifiedDefect? t with
    | some defect => some defect
    | none =>
      if t.any (fun c => c = CodePoint.ofChar '<' || c = CodePoint.ofChar '>') then
        some .angleBracket
      else none

end MethodName

/-- The name of a method. -/
structure MethodName where
  text : Text
  valid : MethodName.defect? text = none
  deriving DecidableEq

namespace MethodName

def ofText? (t : Text) : Except NameFault MethodName :=
  match h : MethodName.defect? t with
  | none => .ok ⟨t, h⟩
  | some defect => .error ⟨.ofMethod, t, defect⟩

def display (name : MethodName) : String := name.text.display

/-- Whether this names an instance initialization method. -/
def isInit (name : MethodName) : Bool := name.text = initText

/-- Whether this names a class initialization method. -/
def isClinit (name : MethodName) : Bool := name.text = clinitText

end MethodName

instance : Outlined FieldName := ⟨fun name => .node "FieldName" [outline name.text]⟩
instance : Outlined MethodName := ⟨fun name => .node "MethodName" [outline name.text]⟩

end ClassFile
