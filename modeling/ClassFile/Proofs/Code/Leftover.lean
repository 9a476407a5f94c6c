import ClassFile.Proofs.Code.Blaming
import ClassFile.Proofs.Verification.Accepted
import ClassFile.Proofs.Verification.Unreached

/-! When reading the code of a method ends with the report that bytes are left over, those bytes were listed
as instructions, and no other instruction, handler or frame leads to them. -/

namespace ClassFile

/-- What is wrong with the tables is no report of bytes that are left over. -/
theorem Error.noLeftover_ofInstructions : OfInstructions NoLeftover where
  others _ h := fun pc fault hfault => absurd hfault (h pc fault)
  plain _ _ h := by
    rintro _ _ ⟨⟩
    exact h.noLeftover
  within _ _ h := h

/-- The error that an action ended with, if it failed. -/
def failure? {ε σ α : Type} : EStateM.Result ε σ α → Option ε
  | .ok _ _ => none
  | .error e _ => some e

/-- An action failed with an error that has a property, if this can be computed. -/
theorem error_of_failure? {ε σ α : Type} {result : EStateM.Result ε σ α} {P : ε → Prop} [DecidablePred P]
    (h : (failure? result).any P = true) : ∃ e s, result = .error e s ∧ P e := by
  cases result with
  | ok a s => cases h
  | error e s => exact ⟨e, s, rfl, of_decide_eq_true h⟩

theorem Lists.failsOnly {P : CodeFault → Prop} {decode : DecodeAt} {pc : Nat} {bytes : List UInt8}
    {places : List ListedPlace} (h : Lists decode pc bytes places)
    (hdecode : ∀ pc opcode operands, FailsOnly P (decode pc opcode operands)) :
    ∀ place ∈ places, FailsOnly P place.decoded := by
  induction h with
  | done pc => simp
  | fault failed => simpa using FailsOnly.error (hdecode _ _ _ _ failed)
  | next decoded behind ih => exact List.forall_mem_cons.mpr ⟨.ok _, ih⟩

section Reading

variable {pool : Pool} {method : MethodContext} {keepBytes : Bool} {source rest : Cursor} {raw : RawCode}
  {e : Error}

theorem noLeftover_listing (bytes : List UInt8) :
    ∀ place ∈ listing pool method bytes, FindsNoLeftover place.decoded :=
  (lists_listing pool method bytes).failsOnly fun _ _ operands => Site.noLeftover_decode _ operands

/-- The report of bytes that are left over comes from the verification of the code that was read. -/
theorem Code.verify_of_leftover (h : Code.read pool method keepBytes source = .error e rest)
    (hleftover : ¬ e.NoLeftover) :
    ∃ raw, RawCode.read pool method source = .ok raw rest ∧ raw.verify pool method = .error e := by
  have hreading := Error.noLeftover_ofInstructions.rawCode pool method source trivial
  change EStateM.bind _ _ source = _ at h
  unfold EStateM.bind at h
  cases hread : RawCode.read pool method source with
  | error e' between =>
      rw [hread] at h hreading
      cases h
      exact absurd hreading hleftover
  | ok raw between =>
      rw [hread] at h
      cases hcheck : raw.check pool method keepBytes with
      | ok code =>
          simp only [hcheck] at h
          cases h
      | error e' =>
          simp only [hcheck] at h
          cases h
          have hverify := RawCode.check_error Error.noLeftover_ofInstructions hcheck
          exact ⟨raw, rfl, hverify.resolve_left hleftover⟩

/-- Bytes that are reported as left over are not reached. They are as many as the report says, and the first
of them is where it was found. -/
theorem Code.read_unreached {pc : UInt16} {expected actual : Nat}
    (h : Code.read pool method keepBytes source = .error e rest)
    (hfault : e.fault = .code pc (.wrongCodeLength expected actual)) (hless : actual < expected) :
    ∃ raw, RawCode.read pool method source = .ok raw rest ∧ expected = raw.bytes.length ∧
      pc.toNat = actual ∧ Unreached (listing pool method raw.bytes) raw.handlers raw.frames actual := by
  have hleftover : ¬ e.NoLeftover := fun hnone => Nat.not_lt.mpr (hnone pc _ hfault) hless
  obtain ⟨raw, hread, hverify⟩ := Code.verify_of_leftover h hleftover
  have hsize := (RawCode.read_length hread).2
  obtain ⟨start, hstart, final, steps, tail, prior, earlier, hcomes, hsteps, htail⟩ :=
    Premises.verify_leftover (noLeftover_listing raw.bytes) hverify hleftover
  rw [hfault] at hstart
  cases hstart
  exact ⟨raw, hread, toNat_length hsize, rfl,
    htail.unreached hsteps hcomes (listing_sorted pool method hsize)⟩

/-- Code with two regions that are not reached from before. A branch leads behind the first one; the second
one goes on to the end of the code. -/
def twoDeadRegions : Cursor :=
  .ofBytes [0, 1, 0, 0, 0, 0, 0, 10, 0x03, 0x99, 0, 6, 0xb1, 0x00, 0xb1, 0xb1, 0x00, 0x00, 0, 0, 0, 0]

theorem twoDeadRegions_unreached : ∃ e rest raw, 8 < 10 ∧
    Code.read samplePool sampleMethod false twoDeadRegions = .error e rest ∧
    e.fault = .code 8 (.wrongCodeLength 10 8) ∧
    RawCode.read samplePool sampleMethod twoDeadRegions = .ok raw rest ∧
    Unreached (listing samplePool sampleMethod raw.bytes) raw.handlers raw.frames 8 := by
  obtain ⟨e, rest, hread, hfault⟩ : ∃ e rest,
      Code.read samplePool sampleMethod false twoDeadRegions = .error e rest ∧
        e.fault = .code 8 (.wrongCodeLength 10 8) :=
    error_of_failure? (P := fun e : Error => e.fault = .code 8 (.wrongCodeLength 10 8)) (by decide +kernel)
  obtain ⟨raw, hraw, -, -, hunreached⟩ := Code.read_unreached hread hfault (by decide)
  exact ⟨e, rest, raw, by decide, hread, hfault, hraw, hunreached⟩

end Reading

end ClassFile
