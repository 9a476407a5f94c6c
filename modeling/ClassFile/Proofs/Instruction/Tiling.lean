import ClassFile.Proofs.Instruction.Decoding
import ClassFile.Proofs.Verification.Steps

/-! The places of a listing as pieces of the code. As long as instructions are decoded, what is left of the
bytes reaches from the next offset to the end of the code, so that nothing is decoded across that end, and the
pieces that were decoded stand one behind the other. -/

namespace ClassFile

/-- Instructions tile bytes that start at an offset: the range from each one to the next, or to the end behind
the last one, is an encoding of it and uses supported opcodes. -/
inductive Tiles (pool : Pool) (version : Version) : Nat → List VerifiedInstruction → List UInt8 → Prop
  | nil (pc : Nat) : Tiles pool version pc [] []
  | cons {pc : Nat} {v : VerifiedInstruction} {rest : List VerifiedInstruction} {range behind : List UInt8}
      (hpc : v.pc.toNat = pc) (hencodes : Encodes pool version pc v.instruction range)
      (hsupported : ∀ opcode ∈ opcodesIn range, version.Supports opcode)
      (hbehind : Tiles pool version (pc + range.length) rest behind) :
      Tiles pool version pc (v :: rest) (range ++ behind)

theorem Operation.becomes_of_perform {setting : Setting} {operation : Operation} {i : Instruction}
    {before after : Machine} (h : operation.perform setting before = .ok i after) :
    operation.Becomes i := by
  cases operation with
  | instruction j =>
      obtain ⟨_, _, _, hpure⟩ := bind_run.mp h
      cases hpure
      rfl
  | shuffle op =>
      obtain ⟨form, _, hrun, hpure⟩ := bind_run.mp h
      cases hpure
      obtain ⟨_, hform, _⟩ := MachineOp.onStack_ok.mp hrun
      exact ⟨form, rfl, Shuffle.op_of_run hform⟩

section Listing

variable {pool : Pool} {method : MethodContext} {length : UInt16} {pc : Nat} {bytes : List UInt8}
  {places : List ListedPlace}

/-- Decoding of code of a length. -/
abbrev decodeWithin (pool : Pool) (method : MethodContext) (length : UInt16) : DecodeAt :=
  fun pc opcode => Site.decode ⟨pc, opcode, length, pool, method⟩

theorem covers_of_total (pool : Pool) (method : MethodContext) {opcode : UInt8} {operands : List UInt8}
    (htotal : pc + (opcode :: operands).length = length.toNat) :
    (UInt16.ofNat pc).toNat = pc ∧
      Site.Covers ⟨UInt16.ofNat pc, opcode, length, pool, method⟩ operands := by
  have hlength := length.toNat_lt
  rw [List.length_cons] at htotal
  have hpc : (UInt16.ofNat pc).toNat = pc := by
    rw [UInt16.toNat_ofNat']
    exact Nat.mod_eq_of_lt (by omega)
  refine ⟨hpc, ?_⟩
  change length.toNat ≤ (UInt16.ofNat pc).toNat + 1 + operands.length
  omega

namespace Lists

theorem foresees (h : Lists (decodeWithin pool method length) pc bytes places)
    (htotal : pc + bytes.length = length.toNat) : ∀ place ∈ places, Foresees place.decoded := by
  induction h with
  | done pc => simp
  | fault failed =>
      obtain ⟨_, hcovers⟩ := covers_of_total pool method htotal
      intro place hplace
      rw [List.mem_singleton.mp hplace]
      exact .error (Site.foreseen_decode hcovers _ failed)
  | next decoded behind ih =>
      obtain ⟨_, hcovers⟩ := covers_of_total pool method htotal
      obtain ⟨hused, _⟩ := Site.spells_of_decode hcovers decoded
      rw [List.length_cons] at htotal
      rw [List.length_drop] at ih
      rw [List.forall_mem_cons]
      exact ⟨.ok _, ih (by omega)⟩

theorem tiles (h : Lists (decodeWithin pool method length) pc bytes places)
    (htotal : pc + bytes.length = length.toNat) {p : Premises} {steps : List PassStep}
    (hsteps : List.Forall₂ (PassStep.Comes p) places steps) :
    Tiles pool method.version pc (steps.map PassStep.verified) bytes := by
  induction h generalizing steps with
  | done pc =>
      cases hsteps
      exact .nil pc
  | fault failed =>
      cases hsteps with
      | cons hcomes _ =>
          obtain ⟨decoded, hdecoded, _⟩ := hcomes.performed
          cases hdecoded
  | @next pc opcode operands operation used rest decoded behind ih =>
      cases hsteps with
      | @cons _ s _ more hcomes hmore =>
          obtain ⟨_, hdecoded, hperform⟩ := hcomes.performed
          cases hdecoded
          obtain ⟨hpc, hcovers⟩ := covers_of_total pool method htotal
          obtain ⟨hused, hspells⟩ := Site.spells_of_decode hcovers decoded
          have hspelled := hspells _ (Operation.becomes_of_perform hperform)
          have hrange : (opcode :: operands.take used).length = 1 + used := by
            rw [List.length_cons, List.length_take_of_le hused, Nat.add_comm]
          have hencodes := hspelled.encodes
          rw [hpc] at hencodes
          have hhere : opcode :: operands = (opcode :: operands.take used) ++ operands.drop used := by
            rw [List.cons_append, List.take_append_drop]
          rw [hhere]
          refine .cons ((congrArg UInt16.toNat hcomes.pc).trans hpc) hencodes hspelled.supported ?_
          rw [hrange, ← Nat.add_assoc]
          rw [List.length_cons] at htotal
          rw [List.length_drop] at ih
          exact ih (by omega) hmore

end Lists

end Listing

section Listed

variable {pool : Pool} {method : MethodContext} {bytes : List UInt8}

theorem toNat_length (hsize : bytes.length ≤ 0xffff) : (UInt16.ofNat bytes.length).toNat = bytes.length := by
  rw [UInt16.toNat_ofNat']
  exact Nat.mod_eq_of_lt (by omega)

theorem foresees_listing (hsize : bytes.length ≤ 0xffff) :
    ∀ place ∈ listing pool method bytes, Foresees place.decoded :=
  (lists_listing pool method bytes).foresees (by rw [toNat_length hsize, Nat.zero_add])

end Listed

namespace Accepted

variable {pool : Pool} {method : MethodContext} {source rest : Cursor} {code : Code} {raw : RawCode}
  {steps : List PassStep}

/-- The instructions of accepted code tile the bytes that were read. -/
theorem tiles (h : Accepted pool method source rest code raw steps) :
    Tiles pool method.version 0 code.instructions raw.bytes := by
  have hsize := (RawCode.read_length h.read).2
  rw [h.instructions]
  exact (lists_listing pool method raw.bytes).tiles (by rw [toNat_length hsize, Nat.zero_add])
    (Premises.verify_comes h.verified)

end Accepted

end ClassFile
