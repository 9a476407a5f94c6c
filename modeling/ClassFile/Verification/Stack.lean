import ClassFile.Code
import ClassFile.Verification.Fault

/-! The operand stack as the verifier models it. The stack holds typed items and counts the slots that
they take: a wide item takes two slots but is one item, so that it is only ever moved as a whole. The
counters are sixteen bit words. An operation that fails may have popped items before. -/

namespace ClassFile

/-- Where a value came from. -/
inductive Origin where
  | constant
  | local (index : UInt16)
  | field
  | invocation
  | allocation
  | arrayElement
  | caughtException
  | computation
  /-- Taken from a stack map frame. -/
  | frame
  /-- The join of different values. -/
  | merge
  deriving DecidableEq, Repr

/-- The offset of the instruction that produced a value, and how it did so. -/
structure Provenance where
  pc : UInt16
  origin : Origin
  deriving DecidableEq, Repr

/-- A value on the operand stack. -/
inductive StackItem where
  | numeric (kind : NumericKind) (provenance : Provenance)
  /-- A reference, with the type that it is said to have, if there is one. The stack keeps any type that
  can be written, whether references can have it or not. -/
  | reference (provenance : Provenance) (type : Option ReturnType)
  /-- The offset that a subroutine returns to. -/
  | returnAddress (target : UInt16)
  deriving DecidableEq

namespace StackItem

/-- The category of a value. -/
def category : StackItem → Category
  | .numeric kind _ => kind.category
  | .reference _ _ => .reference
  | .returnAddress _ => .returnAddress

/-- Whether a value takes two slots. -/
def isWide (item : StackItem) : Bool := item.category.isWide

/-- The number of slots that a value takes. -/
def size (item : StackItem) : UInt16 := item.category.size

/-- A reference to an object of a type, if that is known. -/
def ofObject (type : Option FieldType) (provenance : Provenance) : StackItem :=
  .reference provenance (type.map .value)

/-- A value of a type. -/
def ofField (type : FieldType) (provenance : Provenance) : StackItem :=
  if type.isArray then ofObject (some type) provenance
  else
    match type.base with
    | .object _ => ofObject (some type) provenance
    | .primitive kind => .numeric (NumericKind.ofPrimitive kind) provenance

/-- A value of a return type, of which `void` has none. -/
def ofType (type : ReturnType) (provenance : Provenance) : Except CodeFault StackItem :=
  match type with
  | .void => .error (.mismatch .someValue .nothing)
  | .value type => .ok (ofField type provenance)

/-- The value that a stack map frame at an offset describes. -/
def ofVerificationType (type : VerificationType) (pc : UInt16) : Except CodeFault StackItem :=
  let provenance : Provenance := ⟨pc, .frame⟩
  match type with
  | .top => .error (.malformed .topOnStack)
  | .integer => .ok (.numeric .int provenance)
  | .float => .ok (.numeric .float provenance)
  | .long => .ok (.numeric .long provenance)
  | .double => .ok (.numeric .double provenance)
  | .null | .uninitializedThis | .uninitialized _ => .ok (.reference provenance none)
  | .object type => .ok (ofObject (some type.type) provenance)

/-- What a mismatch names for a value. -/
def subject : StackItem → Subject
  | .reference _ (some type) => .instanceOf type
  | item => .category item.category

/-- The value that stands for two values of the same category, found on different paths. -/
def merge (a b : StackItem) : StackItem :=
  if a = b then a
  else
    match a, b with
    | .numeric kind provenance, .numeric _ _ => .numeric kind ⟨provenance.pc, .merge⟩
    | .reference provenance s, .reference _ t =>
      .reference ⟨provenance.pc, .merge⟩ (if s = t then s else none)
    | _, _ => a

end StackItem

/-- An operand stack. The items stand with the top first; `popped` and `pushed` count the slots that the
current instruction moved. -/
structure OperandStack where
  items : List StackItem
  depth : UInt16
  maxStack : UInt16
  popped : UInt16
  pushed : UInt16
  deriving DecidableEq

/-- The categories of items that stand with the top first, from the bottom up. -/
def shapeOf (items : List StackItem) : List Category := (items.map StackItem.category).reverse

/-- Checks that two stacks have the same shape. -/
def checkShape (expected found : List Category) : Except CodeFault Unit :=
  if expected = found then .ok () else .error (.mismatch (.shape expected) (.shape found))

/-- Joins the items that another path brings to those that are known. The shapes have to agree. -/
def joinItems (known other : List StackItem) : Except CodeFault (List StackItem) := do
  checkShape (shapeOf other) (shapeOf known)
  .ok (List.zipWith StackItem.merge known other)

/-- Operations on an operand stack. -/
abbrev StackOp := EStateM CodeFault OperandStack

namespace OperandStack

/-- The empty stack with a limit. -/
def empty (maxStack : UInt16) : OperandStack := ⟨[], 0, maxStack, 0, 0⟩

/-- The categories of the items, from the bottom up. -/
def shape (stack : OperandStack) : List Category := shapeOf stack.items

/-- Starts counting for the next instruction. -/
def beginInstruction (stack : OperandStack) : OperandStack := { stack with popped := 0, pushed := 0 }

/-- What the current instruction did to the stack. -/
def effect (stack : OperandStack) : StackEffect :=
  if stack.popped = 0 ∧ stack.pushed = 0 then .unchanged
  else .changed stack.popped stack.pushed

/-- The item that lies below `n` others. -/
def peekAt (n : Nat) : StackOp StackItem := do
  match (← get).items[n]? with
  | none => throw .underflow
  | some item => return item

/-- The topmost item. -/
def peek : StackOp StackItem := peekAt 0

/-- Takes the topmost item. -/
def pop : StackOp StackItem := do
  let stack ← get
  match stack.items with
  | [] => throw .underflow
  | item :: rest =>
    set { stack with
      items := rest
      depth := stack.depth - item.size
      popped := stack.popped + item.size }
    return item

/-- Takes the topmost item if it is an expected one. -/
def popIf (expected : Subject) (accepts : StackItem → Bool) : StackOp StackItem := do
  let top ← peek
  if accepts top then pop else throw (.mismatch expected top.subject)

/-- Takes a narrow item. -/
def popNarrow : StackOp StackItem := popIf .narrowValue fun item => !item.isWide

/-- Takes a wide item. -/
def popWide : StackOp StackItem := popIf .wideValue StackItem.isWide

/-- Takes a number of a category. -/
def popNumeric (c : Category) : StackOp StackItem :=
  popIf (.category c) fun
    | .numeric kind _ => kind.category = c
    | _ => false

/-- Takes a reference. -/
def popReference : StackOp StackItem :=
  popIf (.category .reference) fun
    | .reference _ _ => true
    | _ => false

/-- Takes a return address. -/
def popReturnAddress : StackOp StackItem :=
  popIf (.category .returnAddress) fun
    | .returnAddress _ => true
    | _ => false

/-- Takes a value of a category. -/
def popValue : Category → StackOp StackItem
  | .reference => popReference
  | .returnAddress => popReturnAddress
  | c => popNumeric c

/-- Checks that there is room for a number of slots. -/
def reserve (slots : UInt16) : StackOp Unit := do
  let stack ← get
  if stack.maxStack.toNat < stack.depth.toNat + slots.toNat then throw (.overflow stack.maxStack)

/-- Puts an item on top. -/
def push (item : StackItem) : StackOp Unit := do
  reserve item.size
  modify fun stack => { stack with
    items := item :: stack.items
    depth := stack.depth + item.size
    pushed := stack.pushed + item.size }

/-- Puts an item on top for which there is room, which was checked before. -/
def pushReserved (item : StackItem) : StackOp Unit := fun stack =>
  match push item stack with
  | .ok () stack => .ok () stack
  | .error _ stack => .error (.internal .reservedPush) stack

/-- Puts items on top for which there is room, the first one first. -/
def pushAllReserved : List StackItem → StackOp Unit
  | [] => pure ()
  | item :: rest => do
    pushReserved item
    pushAllReserved rest

/-- Marks an instruction that leaves the stack alone. -/
def unchanged : StackOp Unit := do
  let stack ← get
  if stack.popped ≠ 0 ∨ stack.pushed ≠ 0 then throw (.internal .touchedStack)

def slotsOf (items : List StackItem) : Nat := items.foldr (fun item n => item.size.toNat + n) 0

/-- Replaces all items. The counters are left alone. -/
def replaceWith (items : List StackItem) : StackOp Unit := do
  let stack ← get
  if stack.maxStack.toNat < slotsOf items then throw (.overflow stack.maxStack)
  else set { stack with items, depth := UInt16.ofNat (slotsOf items) }

/-- Joins the items of another path that reaches the same instruction. -/
def merge (other : List StackItem) : StackOp Unit := do
  let stack ← get
  match joinItems stack.items other with
  | .error fault => throw fault
  | .ok items => set { stack with items }

/-- Joins known items with those of another path, on a stack of their own with a limit. -/
def joinWithin (maxStack : UInt16) (known other : List StackItem) : Except CodeFault (List StackItem) :=
  match replaceWith known (empty maxStack) with
  | .error fault _ => .error fault
  | .ok _ stack =>
    match merge other stack with
    | .error fault _ => .error fault
    | .ok _ joined => .ok joined.items

theorem replaceWith_run (items : List StackItem) (stack : OperandStack) :
    replaceWith items stack =
      if stack.maxStack.toNat < slotsOf items then .error (.overflow stack.maxStack) stack
      else .ok () { stack with items, depth := UInt16.ofNat (slotsOf items) } := by
  change (if _ then throw _ else set _ : StackOp Unit) stack = _
  split <;> rfl

theorem merge_run (other : List StackItem) (stack : OperandStack) :
    merge other stack =
      match joinItems stack.items other with
      | .error fault => .error fault stack
      | .ok items => .ok () { stack with items } := by
  change (match joinItems stack.items other with
    | .error fault => throw fault
    | .ok items => set { stack with items } : StackOp Unit) stack = _
  cases joinItems stack.items other <;> rfl

/-- A join within a limit is a join, as long as the known items are within the limit. -/
theorem joinWithin_eq (maxStack : UInt16) (known other : List StackItem) :
    joinWithin maxStack known other =
      if maxStack.toNat < slotsOf known then .error (.overflow maxStack) else joinItems known other := by
  have hreplaced := replaceWith_run known (empty maxStack)
  unfold joinWithin
  by_cases h : maxStack.toNat < slotsOf known
  · rw [hreplaced.trans (if_pos h), if_pos h]
    rfl
  · rw [hreplaced.trans (if_neg h), if_neg h]
    simp only [merge_run]
    cases joinItems known other <;> rfl

/-- Drops two slots. -/
def pop2 : StackOp Pop2Form := do
  if (← peek).isWide then
    let _ ← popWide
    return .oneWide
  else
    let _ ← popNarrow
    let _ ← popNarrow
    return .twoNarrow

/-- Copies the topmost slot. -/
def dup : StackOp Unit := do
  let a ← popNarrow
  reserve 2
  pushAllReserved [a, a]

/-- Copies the topmost slot below the next one. -/
def dupX1 : StackOp Unit := do
  let a ← popNarrow
  let b ← popNarrow
  reserve 3
  pushAllReserved [a, b, a]

/-- Copies the topmost slot below the next two. -/
def dupX2 : StackOp DupX2Form := do
  let top ← peek
  if top.isWide then throw (.mismatch .narrowValue top.subject)
  if (← peekAt 1).isWide then
    let a ← popNarrow
    let b ← popWide
    reserve 4
    pushAllReserved [a, b, a]
    return .form2
  else
    let a ← popNarrow
    let b ← popNarrow
    let c ← popNarrow
    reserve 4
    pushAllReserved [a, c, b, a]
    return .form1

/-- Copies the topmost two slots. -/
def dup2 : StackOp Dup2Form := do
  if (← peek).isWide then
    let a ← popWide
    reserve 4
    pushAllReserved [a, a]
    return .form2
  else
    let a ← popNarrow
    let b ← popNarrow
    reserve 4
    pushAllReserved [b, a, b, a]
    return .form1

/-- Copies the topmost two slots below the next one. -/
def dup2X1 : StackOp Dup2X1Form := do
  if (← peek).isWide then
    let a ← popWide
    let b ← popNarrow
    reserve 5
    pushAllReserved [a, b, a]
    return .form2
  else
    let a ← popNarrow
    let b ← popNarrow
    let c ← popNarrow
    reserve 5
    pushAllReserved [b, a, c, b, a]
    return .form1

/-- Copies the topmost two slots below the next two. -/
def dup2X2 : StackOp Dup2X2Form := do
  if (← peek).isWide then
    if (← peekAt 1).isWide then
      let a ← popWide
      let b ← popWide
      reserve 6
      pushAllReserved [a, b, a]
      return .form4
    else
      let a ← popWide
      let b ← popNarrow
      let c ← popNarrow
      reserve 6
      pushAllReserved [a, c, b, a]
      return .form2
  else
    let second ← peekAt 1
    if second.isWide then throw (.mismatch .narrowValue second.subject)
    if (← peekAt 2).isWide then
      let a ← popNarrow
      let b ← popNarrow
      let c ← popWide
      reserve 6
      pushAllReserved [b, a, c, b, a]
      return .form3
    else
      let a ← popNarrow
      let b ← popNarrow
      let c ← popNarrow
      let d ← popNarrow
      reserve 6
      pushAllReserved [b, a, d, c, b, a]
      return .form1

/-- Exchanges the topmost two slots. -/
def swap : StackOp Unit := do
  let a ← popNarrow
  let b ← popNarrow
  pushAllReserved [a, b]

end OperandStack

instance : Outlined Origin where
  outline
    | .constant => .leaf "Constant"
    | .local index => .node "Local" [outline index]
    | .field => .leaf "Field"
    | .invocation => .leaf "Invocation"
    | .allocation => .leaf "Allocation"
    | .arrayElement => .leaf "ArrayElement"
    | .caughtException => .leaf "CaughtException"
    | .computation => .leaf "Computation"
    | .frame => .leaf "Frame"
    | .merge => .leaf "Merge"

end ClassFile
