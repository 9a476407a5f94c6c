import ClassFile.Proofs.Parsing
import ClassFile.Proofs.Verification.Accepted
import ClassFile.Proofs.Verification.Relaxed.Pass

/-! Code that is accepted stays accepted if it is given more room or if what is said about its lines and
variables is left out. Nothing else changes in what is read: the instructions, their effects and depths are
those that were found before. -/

namespace ClassFile

/-- An instruction with the line that line numbers give to it. -/
def VerifiedInstruction.onLine (index : LineIndex) (i : VerifiedInstruction) : VerifiedInstruction :=
  { i with line := index.lineAt? i.pc }

/-- The same code with more room, and with no other lines and variables than before. -/
structure RawCode.Relaxed (raw relaxed : RawCode) : Prop where
  maxStack : raw.maxStack ≤ relaxed.maxStack
  maxLocals : raw.maxLocals ≤ relaxed.maxLocals
  bytes : relaxed.bytes = raw.bytes
  handlers : relaxed.handlers = raw.handlers
  lines : ∀ line ∈ relaxed.attributes.lines, line ∈ raw.attributes.lines
  localVariables : relaxed.localVariables = raw.localVariables ∨ relaxed.localVariables = []
  frames : relaxed.frames = raw.frames

section Checks

variable {raw relaxed : RawCode} {pool : Pool} {method : MethodContext} {keepBytes : Bool} {code : Code}

theorem LocalVariable.check_mono {v : LocalVariable} {maxLocals maxLocals' codeLength : UInt16}
    (hle : maxLocals ≤ maxLocals') (h : v.check maxLocals codeLength = .ok ()) :
    v.check maxLocals' codeLength = .ok () := by
  have hle := UInt16.le_iff_toNat_le.mp hle
  unfold LocalVariable.check at h ⊢
  dsimp only at h ⊢
  split at h
  · cases h
  · rw [if_neg (by omega)]
    exact h

theorem Boundaries.ofInstructions_onLine (codeLength : UInt16) (index : LineIndex)
    (instructions : List VerifiedInstruction) :
    ofInstructions codeLength (instructions.map (·.onLine index)) =
      ofInstructions codeLength instructions := by
  unfold ofInstructions
  rw [List.foldl_map]
  rfl

/-- The code that is found in relaxed code, in terms of the code that was found. -/
def RawCode.relaxedCode (relaxed : RawCode) (code : Code) : Code :=
  { code with
    maxStack := relaxed.maxStack
    maxLocals := relaxed.maxLocals
    instructions := code.instructions.map (·.onLine (LineIndex.ofLines relaxed.attributes.lines))
    lineNumbers := relaxed.attributes.lines
    localVariables := relaxed.localVariables }

namespace RawCode.Relaxed

theorem refl (raw : RawCode) : raw.Relaxed raw :=
  ⟨UInt16.le_refl _, UInt16.le_refl _, rfl, rfl, fun _ h => h, .inl rfl, rfl⟩

theorem premises (h : raw.Relaxed relaxed) (method : MethodContext) :
    (raw.premises method).Relaxed (relaxed.premises method) :=
  ⟨rfl, h.maxStack, h.maxLocals, h.handlers, h.localVariables, h.frames⟩

theorem codeLength (h : raw.Relaxed relaxed) : relaxed.codeLength = raw.codeLength := by
  rw [RawCode.codeLength, h.bytes, RawCode.codeLength]

theorem verify (h : raw.Relaxed relaxed) (pool : Pool) (method : MethodContext) :
    Entails (List.Forall₂ (PassStep.Relaxed (raw.premises method) (relaxed.premises method)))
      (raw.verify pool method) (relaxed.verify pool method) := by
  unfold RawCode.verify
  rw [h.codeLength, h.bytes]
  exact (h.premises method).verify _ _

theorem withSteps (h : raw.Relaxed relaxed) {steps steps' : List PassStep}
    (hsteps : List.Forall₂ (PassStep.Relaxed (raw.premises method) (relaxed.premises method)) steps steps') :
    relaxed.withSteps keepBytes steps' = relaxed.relaxedCode (raw.withSteps keepBytes steps) := by
  have hinstructions : steps'.map PassStep.verified = (steps.map PassStep.verified).map
      (·.onLine (LineIndex.ofLines relaxed.attributes.lines)) := by
    induction hsteps with
    | nil => rfl
    | cons hstep _ ih => rw [List.map_cons, ih, hstep.verified, List.map_cons, List.map_cons]; rfl
  unfold RawCode.withSteps RawCode.relaxedCode
  rw [hinstructions, h.codeLength, h.bytes, h.handlers, h.frames]

theorem boundaries (h : raw.Relaxed relaxed) {b : Boundaries} {steps : List PassStep}
    (hcheck : b.check (raw.withSteps keepBytes steps) = .ok ()) :
    b.check (relaxed.relaxedCode (raw.withSteps keepBytes steps)) = .ok () := by
  unfold Boundaries.check at hcheck ⊢
  obtain ⟨_, htargets, hcheck⟩ := bind_ok.mp hcheck
  obtain ⟨_, hhandlers, hcheck⟩ := bind_ok.mp hcheck
  obtain ⟨_, hlines, hcheck⟩ := bind_ok.mp hcheck
  obtain ⟨_, hvariables, hframes⟩ := bind_ok.mp hcheck
  refine bind_ok.mpr ⟨(), ?_, bind_ok.mpr ⟨(), hhandlers, bind_ok.mpr ⟨(), ?_, bind_ok.mpr ⟨(), ?_, hframes⟩⟩⟩⟩
  · refine forM_eq_ok.mpr fun _ hi => ?_
    obtain ⟨i, hmem, rfl⟩ := List.mem_map.mp hi
    exact forM_eq_ok.mp htargets i hmem
  · exact forM_eq_ok.mpr fun line hline => forM_eq_ok.mp hlines line (h.lines line hline)
  · refine forM_eq_ok.mpr fun v hv => ?_
    change v ∈ relaxed.localVariables at hv
    rcases h.localVariables with hsame | hnone
    · rw [hsame] at hv
      exact forM_eq_ok.mp hvariables v hv
    · rw [hnone] at hv
      cases hv

/-- Code that is accepted is also accepted with more room, and without lines or variables. -/
theorem check (h : raw.Relaxed relaxed) (hcheck : raw.check pool method keepBytes = .ok code) :
    relaxed.check pool method keepBytes = .ok (relaxed.relaxedCode code) := by
  unfold RawCode.check at hcheck ⊢
  obtain ⟨_, hvariables, hcheck⟩ := bind_ok.mp hcheck
  obtain ⟨steps, hsteps, hcheck⟩ := bind_ok.mp hcheck
  obtain ⟨_, hoffsets, hcheck⟩ := bind_ok.mp hcheck
  cases hcheck
  obtain ⟨steps', hsteps', hrelaxed⟩ := h.verify pool method steps hsteps
  refine bind_ok.mpr ⟨(), ?_, bind_ok.mpr ⟨steps', hsteps', bind_ok.mpr ⟨(), ?_, ?_⟩⟩⟩
  · refine forM_eq_ok.mpr fun v hv => ?_
    rw [h.codeLength]
    rcases h.localVariables with hsame | hnone
    · exact LocalVariable.check_mono h.maxLocals (forM_eq_ok.mp hvariables v (hsame ▸ hv))
    · rw [hnone] at hv
      cases hv
  · rw [h.withSteps hrelaxed]
    change (Boundaries.ofInstructions _ (List.map _ _)).check _ = _
    rw [Boundaries.ofInstructions_onLine]
    exact h.boundaries hoffsets
  · rw [h.withSteps hrelaxed]
    rfl

end RawCode.Relaxed

/-- The code that is found has the limits, the lines and the variables that were read. -/
theorem RawCode.relaxedCode_self (hcheck : raw.check pool method keepBytes = .ok code) :
    raw.relaxedCode code = code := by
  have hsame := (Relaxed.refl raw).check hcheck
  rw [hcheck, Except.ok.injEq] at hsame
  exact hsame.symm

end Checks

section Limits

variable {pool : Pool} {method : MethodContext} {keepBytes : Bool} {base position : Nat}
  {maxStack maxLocals : UInt16} {contents : List UInt8} {rest : Cursor}

theorem RawCode.read_limits {raw : RawCode} (maxStack' maxLocals' : UInt16)
    (h : RawCode.read pool method ⟨base, position,
      bigEndianBytes 2 maxStack.toNat ++ (bigEndianBytes 2 maxLocals.toNat ++ contents)⟩ = .ok raw rest) :
    raw.maxStack = maxStack ∧ raw.maxLocals = maxLocals ∧
      RawCode.read pool method ⟨base, position,
        bigEndianBytes 2 maxStack'.toNat ++ (bigEndianBytes 2 maxLocals'.toNat ++ contents)⟩ =
          .ok { raw with maxStack := maxStack', maxLocals := maxLocals' } rest := by
  unfold RawCode.read at h ⊢
  obtain ⟨_, _, hstack, h⟩ := bind_run.mp h
  rw [Reader.u16_run] at hstack
  cases hstack
  obtain ⟨_, _, hlocals, h⟩ := bind_run.mp h
  rw [Reader.u16_run] at hlocals
  cases hlocals
  obtain ⟨length, t, hlength, h⟩ := bind_run.mp h
  suffices hraw : raw.maxStack = maxStack ∧ raw.maxLocals = maxLocals ∧ _ from
    ⟨hraw.1, hraw.2.1, bind_run.mpr ⟨_, _, Reader.u16_run _ _ _ _, bind_run.mpr
      ⟨_, _, Reader.u16_run _ _ _ _, bind_run.mpr ⟨length, t, hlength, hraw.2.2⟩⟩⟩⟩
  split at h
  · cases h
  · rename_i hlength
    rw [if_neg hlength]
    obtain ⟨bytes, u, hbytes, h⟩ := bind_run.mp h
    obtain ⟨handlers, v, hhandlers, h⟩ := bind_run.mp h
    obtain ⟨attributes, w, hattributes, h⟩ := bind_run.mp h
    cases h
    exact ⟨rfl, rfl, bind_run.mpr ⟨bytes, u, hbytes, bind_run.mpr ⟨handlers, v, hhandlers,
      bind_run.mpr ⟨attributes, _, hattributes, rfl⟩⟩⟩⟩

/-- Code that is accepted with some limits is accepted with all greater ones, and nothing else in it
changes. -/
theorem Code.read_of_limits_le {code : Code} {maxStack' maxLocals' : UInt16} (hstack : maxStack ≤ maxStack')
    (hlocals : maxLocals ≤ maxLocals')
    (h : Code.read pool method keepBytes ⟨base, position,
      bigEndianBytes 2 maxStack.toNat ++ (bigEndianBytes 2 maxLocals.toNat ++ contents)⟩ = .ok code rest) :
    Code.read pool method keepBytes ⟨base, position,
      bigEndianBytes 2 maxStack'.toNat ++ (bigEndianBytes 2 maxLocals'.toNat ++ contents)⟩ =
        .ok { code with maxStack := maxStack', maxLocals := maxLocals' } rest := by
  obtain ⟨raw, between, hread, hcheck⟩ := bind_run.mp h
  obtain ⟨rfl, rfl, hread'⟩ := RawCode.read_limits maxStack' maxLocals' hread
  have hrelaxed : raw.Relaxed { raw with maxStack := maxStack', maxLocals := maxLocals' } :=
    ⟨hstack, hlocals, rfl, rfl, fun _ hline => hline, .inl rfl, rfl⟩
  cases hchecked : raw.check pool method keepBytes with
  | error error =>
      rw [hchecked] at hcheck
      cases hcheck
  | ok found =>
      rw [hchecked] at hcheck
      cases hcheck
      have hfound : RawCode.relaxedCode { raw with maxStack := maxStack', maxLocals := maxLocals' } code =
          { raw.relaxedCode code with maxStack := maxStack', maxLocals := maxLocals' } := rfl
      rw [RawCode.relaxedCode_self hchecked] at hfound
      refine bind_run.mpr ⟨_, _, hread', ?_⟩
      rw [hrelaxed.check hchecked, hfound]
      rfl

/-- The contents of a `Code` attribute behind its limits: a loop that counts in a local variable. -/
def loopContents : List UInt8 :=
  [0, 0, 0, 8, 0x03, 0x3b, 0x84, 0, 1, 0xa7, 0xff, 0xfd, 0, 0, 0, 0]

/-- The loop is read with the room that it needs, and with more. -/
theorem loopContents_read :
    ∃ code rest,
      Code.read samplePool sampleMethod false ⟨0, 0,
        bigEndianBytes 2 (1 : UInt16).toNat ++ (bigEndianBytes 2 (1 : UInt16).toNat ++ loopContents)⟩ =
          .ok code rest ∧
      Code.read samplePool sampleMethod false ⟨0, 0,
        bigEndianBytes 2 (3 : UInt16).toNat ++ (bigEndianBytes 2 (4 : UInt16).toNat ++ loopContents)⟩ =
          .ok { code with maxStack := 3, maxLocals := 4 } rest := by
  obtain ⟨code, rest, hread, _⟩ : ∃ code rest,
      Code.read samplePool sampleMethod false ⟨0, 0,
        bigEndianBytes 2 (1 : UInt16).toNat ++ (bigEndianBytes 2 (1 : UInt16).toNat ++ loopContents)⟩ =
          .ok code rest ∧ True :=
    ok_of_success? (P := fun _ => True) (by decide +kernel)
  exact ⟨code, rest, hread, Code.read_of_limits_le (by decide) (by decide) hread⟩

end Limits

end ClassFile
