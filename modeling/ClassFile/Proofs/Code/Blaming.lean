import ClassFile.Code.Reading
import ClassFile.Proofs.Blaming

/-! What reading the code of a method can be blamed for, apart from its instructions. The tables beside the
instructions name offsets and local variables, and those can be out of range. -/

namespace ClassFile

variable {P : Error → Prop}

namespace Error.OfInstructions

variable (hP : OfInstructions P) (pool : Pool)

include hP

theorem handler : Blames P (ExceptionHandler.read pool) :=
  .bind hP.u16 fun _ => .bind hP.u16 fun _ => .bind hP.u16 fun _ => .bind hP.u16 fun _ =>
    .bind (hP.inPlace _ (hP.ofPool _)) fun _ => .pure _

theorem line : Blames P LineNumber.read := .bind hP.u16 fun _ => .bind hP.u16 fun _ => .pure _

theorem localVariable : Blames P (LocalVariable.read pool) :=
  .bind hP.u16 fun _ => .bind hP.u16 fun _ => hP.atIndex pool.utf8At fun _ => .bind hP.u16 fun _ =>
    .bind (hP.ofPool _) fun _ => .bind (hP.ofPool _) fun _ => .bind hP.u16 fun _ => .pure _

theorem signature : Blames P (VariableSignature.read pool) :=
  .bind hP.u16 fun _ => .bind hP.u16 fun _ => hP.atIndex pool.utf8At fun _ =>
    hP.atIndex pool.utf8At fun _ => .bind hP.u16 fun _ => .pure _

theorem verificationType : Blames P (VerificationType.read pool) := by
  refine .bind hP.u8 fun tag => ?_
  split
  case h_8 => exact hP.atIndex pool.classAt fun _ => .pure _
  case h_9 => exact .bind hP.u16 fun _ => .pure _
  case h_10 => exact hP.failStructure _
  all_goals exact .pure _

theorem frameForm : Blames P (FrameForm.read pool) := by
  have htype := hP.verificationType pool
  refine .bind hP.u8 fun kind => ?_
  unfold FrameForm.readKind
  dsimp only
  split
  · exact .pure _
  split
  · exact .bind htype fun _ => .pure _
  split
  · exact hP.failStructure _
  refine .bind hP.u16 fun delta => ?_
  split
  · exact .bind htype fun _ => .pure _
  split
  · exact .pure _
  split
  · exact .pure _
  split
  · generalize kind.toNat - 251 = count
    exact .bind (htype.collect count) fun _ => .pure _
  · exact .bind (hP.list htype) fun _ => .bind (hP.list htype) fun _ => .pure _

theorem frameOffset (codeLength : UInt16) (offset : Nat) : Blames P (frameOffset codeLength offset) := by
  unfold ClassFile.frameOffset
  split
  · exact .throw (hP.plain _ _ trivial)
  · exact .pure _

theorem frames (initial : List VerificationType) (codeLength : UInt16) :
    Blames P (readFrames pool initial codeLength) := by
  refine .bind hP.u16 fun count => .bind (.iterate (fun so => ?_) _ _) fun _ => .pure _
  refine .bind (hP.frameForm pool) fun form => ?_
  split
  · exact hP.failStructure _
  · exact .bind (hP.frameOffset _ _) fun _ => .pure _

theorem fullFrames (codeLength : UInt16) : Blames P (readFullFrames pool codeLength) := by
  have htypes := hP.list (hP.verificationType pool)
  have hframe : Blames P (readFullFrame pool codeLength) :=
    .bind hP.u16 fun _ => .bind (hP.frameOffset _ _) fun _ => .bind htypes fun _ =>
      .bind htypes fun _ => .pure _
  refine .bind (hP.list hframe) fun frames => ?_
  dsimp only
  split
  · exact hP.failStructure _
  · exact .pure _

theorem codeAttribute (method : MethodContext) (codeLength : UInt16) (so : CodeAttributes)
    (found : Attribute) : Blames P (CodeAttributes.add pool method codeLength so found) := by
  have hframes : ∀ frames, Blames P (so.addFrames frames) := fun frames =>
    .bind (hP.fillOnce _ _ _) fun _ => .pure _
  unfold CodeAttributes.add
  split
  · exact .bind (hP.list hP.line) fun _ => .pure _
  · exact .bind (hP.inPlace _ (hP.list (hP.localVariable pool))) fun _ => .pure _
  · exact .bind (hP.inPlace _ (hP.list (hP.signature pool))) fun _ => .pure _
  · exact .bind (hP.frames pool _ _) hframes
  · exact .bind (hP.fullFrames pool _) hframes
  · exact .bind hP.skipRest fun _ => .pure _

theorem rawCode (method : MethodContext) : Blames P (RawCode.read pool method) := by
  refine .bind hP.u16 fun maxStack => .bind hP.u16 fun maxLocals => .bind hP.u32 fun length => ?_
  split
  · exact .throw_bind (hP.structural _)
  · refine .bind (hP.bytes _) fun bytes => .bind (hP.list (hP.handler pool)) fun handlers => ?_
    exact .bind (hP.attributes pool _ _ (hP.codeAttribute pool method _) _) fun _ => .pure _

end Error.OfInstructions

namespace Boundaries

variable (hP : Error.OfInstructions P) (b : Boundaries)

include hP

theorem blames_checkStart (role : OffsetRole) (pc : UInt16) : FailsOnly P (b.checkStart role pc) := by
  unfold checkStart
  split
  · exact .ok ()
  · exact .error (hP.plain _ _ trivial)

theorem blames_checkStop (role : OffsetRole) (stop : Nat) (start : UInt16) :
    FailsOnly P (b.checkStop role stop start) := by
  unfold checkStop
  split
  · exact .ok ()
  · exact .error (hP.plain _ _ trivial)

theorem blames_checkTargets (v : VerifiedInstruction) : FailsOnly P (b.checkTargets v) := by
  refine .forM fun target => ?_
  split
  · exact .ok ()
  · exact .error (hP.plain _ _ trivial)

theorem blames_checkHandler (codeLength : UInt16) (h : ExceptionHandler) :
    FailsOnly P (b.checkHandler codeLength h) := by
  have hoffsets : FailsOnly P (do
      b.checkStart .rangeStart h.start
      b.checkStop .rangeEnd h.stop.toNat h.start
      b.checkStart .handler h.handler) :=
    .bind (b.blames_checkStart hP _ _) fun _ _ => .bind (b.blames_checkStop hP _ _ _) fun _ _ =>
      b.blames_checkStart hP _ _
  unfold checkHandler
  dsimp only
  split
  · exact .error (hP.structural _)
  · split
    · exact .error (hP.plain _ _ trivial)
    · exact hoffsets

theorem blames_checkLine (codeLength : UInt16) (line : LineNumber) :
    FailsOnly P (b.checkLine codeLength line) := by
  unfold checkLine
  split
  · exact .error (hP.plain _ _ trivial)
  · exact b.blames_checkStart hP _ _

theorem blames_checkVariable (v : LocalVariable) : FailsOnly P (b.checkVariable v) :=
  .bind (b.blames_checkStart hP _ _) fun _ _ => b.blames_checkStop hP _ _ _

theorem blames_check (code : Code) : FailsOnly P (b.check code) :=
  .bind (.forM (b.blames_checkTargets hP)) fun _ _ => .bind (.forM (b.blames_checkHandler hP _)) fun _ _ =>
    .bind (.forM (b.blames_checkLine hP _)) fun _ _ => .bind (.forM (b.blames_checkVariable hP)) fun _ _ =>
      .forM fun frame => b.blames_checkStart hP _ frame.offset

end Boundaries

theorem LocalVariable.blames_check (hP : Error.OfInstructions P) (v : LocalVariable)
    (maxLocals codeLength : UInt16) : FailsOnly P (v.check maxLocals codeLength) := by
  unfold LocalVariable.check
  dsimp only
  split
  · exact .error (hP.plain _ _ trivial)
  · split
    · exact .error (hP.plain _ _ trivial)
    · exact .ok ()

/-- Apart from what its instructions are blamed for, code has no other errors. -/
theorem RawCode.check_error (hP : Error.OfInstructions P) {raw : RawCode} {pool : Pool}
    {method : MethodContext} {keepBytes : Bool} {e : Error}
    (h : raw.check pool method keepBytes = .error e) : P e ∨ raw.verify pool method = .error e := by
  rcases bind_error.mp h with hvariables | ⟨_, _, h⟩
  · exact .inl (FailsOnly.forM (fun v => v.blames_check hP _ _) e hvariables)
  rcases bind_error.mp h with hverify | ⟨steps, _, h⟩
  · exact .inr hverify
  rcases bind_error.mp h with hoffsets | ⟨_, _, h⟩
  · exact .inl (Boundaries.blames_check hP _ _ e hoffsets)
  · cases h

theorem RawCode.blames_check (hP : Error.OfInstructions P) {raw : RawCode} {pool : Pool}
    {method : MethodContext} {keepBytes : Bool} (h : FailsOnly P (raw.verify pool method)) :
    FailsOnly P (raw.check pool method keepBytes) :=
  fun e hcheck => (RawCode.check_error hP hcheck).elim id (h e)

end ClassFile
