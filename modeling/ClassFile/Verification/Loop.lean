import ClassFile.Code
import ClassFile.Verification.Locals

/-! Backward branches. The body of a loop was verified with the local variables that it was entered with
first; a branch back to its start may bring other ones, as long as the body stores to the slots that
changed before it reads them. -/

namespace ClassFile

/-- A range of local variable slots: where it starts, and the category of the value in it. -/
structure SlotRange where
  index : UInt16
  category : Category
  deriving DecidableEq

/-- Whether a slot lies in a range. -/
def SlotRange.covers (range : SlotRange) (slot : Nat) : Bool :=
  range.index.toNat ≤ slot && slot < range.index.toNat + range.category.size.toNat

namespace Instruction

/-- The local variable that an instruction reads. -/
def localRead? : Instruction → Option SlotRange
  | .load kind index => some ⟨index, kind.category⟩
  | .increment index _ => some ⟨index, .int⟩
  | .ret index => some ⟨index, .returnAddress⟩
  | _ => none

/-- The local variable that an instruction writes. -/
def localWritten? : Instruction → Option SlotRange
  | .store kind index => some ⟨index, kind.category⟩
  | .increment index _ => some ⟨index, .int⟩
  | _ => none

end Instruction

/-- Whether instructions, taken in order, read a slot before they write it. -/
def readsBeforeWriting (slot : Nat) : List Instruction → Bool
  | [] => false
  | i :: rest =>
    if i.localRead?.any (·.covers slot) then true
    else if i.localWritten?.any (·.covers slot) then false
    else readsBeforeWriting slot rest

/-- Whether a slot that a loop was entered with may come back as something else, whatever the loop does
with it. A slot that was not set was not read either, and one that is not known accepts everything. -/
def LocalSlot.mayBecome (before after : LocalSlot) : Bool :=
  before = after || before = .unset || before = .unknown || after = .unknown

/-- The first slot that comes back to a loop as something else and is read in it. -/
def changedSlot? (entered incoming : Locals) (body : List Instruction) : Option Nat :=
  (List.range entered.slots.size).find? fun index =>
    !(entered.slot index).mayBecome (incoming.slot index) && readsBeforeWriting index body

/-- Checks the local variables that a branch back brings to the start of a loop. -/
def checkLoop (entered incoming : Locals) (body : List Instruction) : Except CodeFault Unit :=
  match changedSlot? entered incoming body with
  | none => .ok ()
  | some index =>
    .error (.mismatch (.slot (UInt16.ofNat index) (entered.slot index))
      (.slot (UInt16.ofNat index) (incoming.slot index)))

end ClassFile
