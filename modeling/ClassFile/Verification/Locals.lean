import ClassFile.Code
import ClassFile.Verification.Fault

/-! The local variables as the verifier models them: what each slot holds. -/

namespace ClassFile

/-- Whether a slot holds the first half of a wide value. -/
def LocalSlot.isWide : LocalSlot → Bool
  | .value c => c.isWide
  | _ => false

/-- What the local variable slots hold. -/
structure Locals where
  slots : Array LocalSlot
  deriving DecidableEq

namespace Locals

/-- Local variables in which nothing was stored. -/
def unset (maxLocals : UInt16) : Locals := ⟨Array.replicate maxLocals.toNat .unset⟩

/-- Local variables of which nothing is known. -/
def unknown (maxLocals : UInt16) : Locals := ⟨Array.replicate maxLocals.toNat .unknown⟩

/-- The number of slots. -/
def maxLocals (locals : Locals) : UInt16 := UInt16.ofNat locals.slots.size

/-- What the slot with a number holds. -/
def slot (locals : Locals) (index : Nat) : LocalSlot := locals.slots.getD index .unset

/-- Checks that a value of a category fits at an index. -/
def checkIndex (locals : Locals) (index : UInt16) (c : Category) : Except CodeFault Unit :=
  let last := index.toNat + c.size.toNat - 1
  if locals.slots.size ≤ last then .error (.invalidLocal last locals.maxLocals) else .ok ()

/-- Checks that there is a value of a category at an index. -/
def load (locals : Locals) (index : UInt16) (c : Category) : Except CodeFault Unit := do
  locals.checkIndex index c
  match locals.slot index.toNat with
  | .unknown => .ok ()
  | .value found =>
    if found ≠ c then
      .error (.mismatch (.category c) (.slot index (.value found)))
    else if c.isWide && locals.slot (index.toNat + 1) ≠ .upper
        && locals.slot (index.toNat + 1) ≠ .unknown then
      .error (.mismatch (.category c) .splitValue)
    else
      .ok ()
  | found => .error (.mismatch (.category c) (.slot index found))

/-- Forgets the wide value that starts right before an index, since its second half is overwritten. -/
def dropBefore (locals : Locals) (index : Nat) : Locals :=
  if 0 < index ∧ (locals.slot (index - 1)).isWide then
    ⟨locals.slots.setIfInBounds (index - 1) .unset⟩
  else
    locals

/-- Forgets the second half of the wide value that starts at an index, since its first half is
overwritten. -/
def dropUpper (locals : Locals) (index : Nat) : Locals :=
  if (locals.slot index).isWide ∧ locals.slot (index + 1) = .upper then
    ⟨locals.slots.setIfInBounds (index + 1) .unset⟩
  else
    locals

/-- Stores a value of a category at an index. Wide values that it overwrites in part are lost. -/
def store (locals : Locals) (index : UInt16) (c : Category) : Except CodeFault Locals := do
  locals.checkIndex index c
  let first := index.toNat
  let cleared := (locals.dropBefore first).dropUpper (first + c.size.toNat - 1)
  let slots := cleared.slots.setIfInBounds first (.value c)
  .ok ⟨if c.isWide then slots.setIfInBounds (first + 1) .upper else slots⟩

/-- Stores values of categories one behind the other, starting at an index. -/
def storeAll (locals : Locals) (index : UInt16) : List Category → Except CodeFault Locals
  | [] => .ok locals
  | c :: rest => do (← locals.store index c).storeAll (index + c.size) rest

/-- The local variables at the start of a method: the receiver unless the method is static, then the
parameters. -/
def atEntry (maxLocals : UInt16) (isStatic : Bool) (descriptor : MethodDescriptor) :
    Except CodeFault Locals :=
  let parameters := descriptor.parameters.map FieldType.category
  (unset maxLocals).storeAll 0 (if isStatic then parameters else .reference :: parameters)

/-- The category of the values of a type in a frame; a slot that is not used has none. -/
def frameCategory : VerificationType → Option Category
  | .top => none
  | .integer => some .int
  | .float => some .float
  | .long => some .long
  | .double => some .double
  | .null | .uninitializedThis | .object _ | .uninitialized _ => some .reference

/-- Stores the values that a frame describes one behind the other, starting at an index. -/
def storeFrame (locals : Locals) (index : UInt16) :
    List VerificationType → Except CodeFault Locals
  | [] => .ok locals
  | type :: rest => do
    let size := ((frameCategory type).map Category.size).getD 1
    let behind := index.toNat + size.toNat
    if locals.slots.size < behind then
      throw (.invalidLocal (behind - 1) locals.maxLocals)
    let stored ← match frameCategory type with
      | none => pure locals
      | some c => locals.store index c
    stored.storeFrame (index + size) rest

/-- The local variables that a stack map frame describes. -/
def ofFrame (maxLocals : UInt16) (types : List VerificationType) : Except CodeFault Locals :=
  (unset maxLocals).storeFrame 0 types

/-- Joins the local variables of another path that reaches the same instruction: slots that differ
become unknown. -/
def merge (locals other : Locals) : Locals :=
  ⟨locals.slots.mapIdx fun index slot =>
    match other.slots[index]? with
    | none => slot
    | some found => if slot = found then slot else .unknown⟩

end Locals

/-- Checks the category of a local variable against the variables that are live at an offset. -/
def checkBinding (bindings : List LocalVariable) (pc index : UInt16) (c : Category) :
    Except CodeFault Unit :=
  let conflict := bindings.findSome? fun binding =>
    if binding.index = index ∧ binding.isLiveAt pc then
      match binding.type with
      | none => none
      | some type => if type.category = c then none else some (type.category, binding.name)
    else
      none
  match conflict with
  | none => .ok ()
  | some (expected, name) => .error (.mismatch (.variable expected name) (.category c))

end ClassFile
