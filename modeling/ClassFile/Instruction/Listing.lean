import ClassFile.Instruction.Operands

/-! Listings of code. The bytes of a method are decoded one instruction after the other, until they end or
an instruction cannot be decoded. What an instruction decodes to does not depend on how it is reached. -/

namespace ClassFile

/-- An instruction that was decoded, and the offset behind it. -/
structure Decoded where
  operation : Operation
  next : UInt16
  deriving DecidableEq

/-- A place of a listing: where an instruction starts, and what it decodes to. -/
structure ListedPlace where
  pc : UInt16
  decoded : Except CodeFault Decoded

/-- Decodes the instruction with an opcode at an offset, from the bytes behind the opcode, and tells how
many of them it takes. -/
abbrev DecodeAt := (pc : UInt16) → (opcode : UInt8) → (operands : List UInt8) →
  Except CodeFault (Operation × Nat)

/-- Decodes the instructions from an offset on, where the given bytes start. `found` holds the places
before it, the last one first. -/
def listFrom (decode : DecodeAt) (found : List ListedPlace) (pc : Nat) (bytes : List UInt8) :
    List ListedPlace :=
  match bytes with
  | [] => found.reverse
  | opcode :: operands =>
    let start := UInt16.ofNat pc
    match decode start opcode operands with
    | .error fault => (⟨start, .error fault⟩ :: found).reverse
    | .ok (operation, used) =>
      let next := pc + 1 + used
      listFrom decode (⟨start, .ok ⟨operation, UInt16.ofNat next⟩⟩ :: found) next
        (operands.drop used)
  termination_by bytes.length
  decreasing_by
    simp only [List.length_drop, List.length_cons]
    omega

/-- The listing of the code of a method. Only its last place may have failed to decode. -/
def listing (pool : Pool) (method : MethodContext) (bytes : List UInt8) : List ListedPlace :=
  let length := UInt16.ofNat bytes.length
  listFrom (fun pc opcode => Site.decode ⟨pc, opcode, length, pool, method⟩) [] 0 bytes

end ClassFile
