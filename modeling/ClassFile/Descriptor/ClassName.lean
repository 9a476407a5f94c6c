import ClassFile.Descriptor.Parser

/-! The names of classes, arrays included. An ordinary class is named by its binary name, an array
class by its descriptor, so every class name denotes exactly one type. -/

namespace ClassFile

namespace ClassName

/-- The type that a text denotes as a class name. -/
def denoted (t : Text) : Except DescriptorFault FieldType :=
  if t.startsWith '[' then FieldType.parse t
  else
    match BinaryName.ofText? t with
    | .error fault => .error (.badClassName fault)
    | .ok name => .ok (.object name)

end ClassName

/-- The name of a class together with the type it denotes. -/
structure ClassName where
  text : Text
  type : FieldType
  denotes : ClassName.denoted text = .ok type
  deriving DecidableEq

namespace ClassName

def ofText? (t : Text) : Except DescriptorFault ClassName :=
  match h : denoted t with
  | .error fault => .error fault
  | .ok type => .ok ⟨t, type, h⟩

theorem denoted_binary (name : BinaryName) : denoted name.text = .ok (.object name) := by
  obtain ⟨text, valid⟩ := name
  have notArray : Text.startsWith text '[' = false := by
    cases text with
    | nil => rfl
    | cons first rest =>
      simp only [Text.startsWith, decide_eq_false_iff_not]
      rintro rfl
      revert valid
      simp [BinaryName.defect?, BinaryName.defectFrom?, CodePoint.isReserved, CodePoint.ofChar]
  have accepted : BinaryName.ofText? text = .ok ⟨text, valid⟩ := by
    unfold BinaryName.ofText?
    split
    · rfl
    · rename_i other
      rw [valid] at other
      cases other
  simp [denoted, notArray, accepted]

/-- The name of a class that is no array class. -/
def ofBinary (name : BinaryName) : ClassName := ⟨name.text, .object name, denoted_binary name⟩

def isArray (name : ClassName) : Bool := name.text.startsWith '['

def display (name : ClassName) : String := name.text.display

/-- The text of the name of the root of the class hierarchy. -/
def objectText : Text := Text.ofString "java/lang/Object"

/-- Whether this is the root of the class hierarchy. -/
def isObject (name : ClassName) : Bool := name.text = objectText

end ClassName

instance : Outlined ClassName := ⟨fun name => .node "ClassName" [outline name.text]⟩

end ClassFile
