import ClassFile.Proofs.Verification.Accepted
import ClassFile.Proofs.Verification.Boundaries

/-! The operand stack along the edges of the control flow. What an instruction leaves has the shape that the
instructions it can go on to were entered with. There is one exception: a branch forward is not compared
with a frame at its target if control also falls into the target. -/

namespace ClassFile

/-- A step that control falls into from the one before. -/
def FallenInto (steps : List PassStep) (s : PassStep) : Prop :=
  ∃ prior, [prior, s] <:+: steps ∧ prior.instruction.isTransfer = false

/-- A branch that the pass overlooks: control also falls into the instruction ahead that it goes to, and what
falls is all that was compared with the frame there, which has another shape than what the branch
brings. -/
structure OverlooksBranch (code : Code) (steps : List PassStep) (s target : PassStep) : Prop where
  ahead : s.pc < target.pc
  fallen : FallenInto steps target
  frame : ∃ frame, code.frames.find? (fun frame => frame.offset = target.pc) = some frame ∧
    frame.shape ≠ s.after.stack.shape

namespace Pass

variable {p : Premises} {pass : Pass} {pc : UInt16}

theorem handOn_shape {i : Instruction} {after machine : Machine}
    (h : handOn p i after = .ok machine) :
    after.stack.shape =
      machine.stack.shape ++ if i.isSubroutineCall then [.returnAddress] else [] := by
  rcases handOn_ok h with ⟨hcall, hshape, _⟩ | ⟨hcall, rfl⟩
  · rw [hshape, hcall, if_pos rfl]
  · rw [hcall, if_neg Bool.false_ne_true, List.append_nil]

section

variable {falling before : Machine} {shape : List Category} {locals : Locals} {frame : StackMapFrame}
  {arrival : Arrival}

theorem Joins.shape_eq (h : Joins p pass pc falling shape locals) : shape = falling.stack.shape := by
  cases h with
  | frame found described agrees => exact agrees
  | arrival unframed found agrees => rfl
  | nothing unframed unknown => rfl

theorem Joins.shape_frame (h : Joins p pass pc falling shape locals)
    (hframe : p.frameAt? pc = some frame) : shape = frame.shape := by
  cases h with
  | frame found described agrees => rw [Option.some.inj (hframe.symm.trans found)]
  | arrival unframed found agrees => rw [unframed] at hframe; cases hframe
  | nothing unframed unknown => rw [unframed] at hframe; cases hframe

theorem Joins.shape_arrival (h : Joins p pass pc falling shape locals)
    (hframe : p.frameAt? pc = none) (harrival : pass.arrivalAt? pc = some arrival) :
    shape = shapeOf arrival.items := by
  cases h with
  | frame found described agrees => rw [hframe] at found; cases found
  | arrival unframed found agrees => rw [Option.some.inj (harrival.symm.trans found), agrees]
  | nothing unframed unknown => rw [unknown] at harrival; cases harrival

theorem Adopts.shape_frame (h : Adopts p pass pc shape locals)
    (hframe : p.frameAt? pc = some frame) : shape = frame.shape := by
  cases h with
  | frame found described agrees => rw [Option.some.inj (hframe.symm.trans found)]
  | arrival unframed found => rw [unframed] at hframe; cases hframe
  | nothing unframed unknown => rw [unframed] at hframe; cases hframe

theorem Adopts.shape_arrival (h : Adopts p pass pc shape locals)
    (harrival : pass.arrivalAt? pc = some arrival) : shape = shapeOf arrival.items := by
  cases h with
  | frame found described agrees => exact (agrees arrival harrival).symm
  | arrival unframed found => rw [Option.some.inj (harrival.symm.trans found)]
  | nothing unframed unknown => rw [unknown] at harrival; cases harrival

/-- An instruction at which there is a frame is entered with the shape of the frame. -/
theorem Enters.shape_frame (h : Enters p pass pc before) (hframe : p.frameAt? pc = some frame) :
    before.stack.shape = frame.shape := by
  cases h with
  | falls falls joins handler => exact joins.shape_frame hframe
  | jumps transfer adopts => exact adopts.shape_frame hframe

/-- What branches bring has the shape that their target is entered with, unless that is fallen into and
there is a frame. -/
theorem Enters.shape_arrival (h : Enters p pass pc before)
    (harrival : pass.arrivalAt? pc = some arrival)
    (hchecked : pass.fallsThrough = false ∨ p.frameAt? pc = none) :
    before.stack.shape = shapeOf arrival.items := by
  cases h with
  | falls falls joins handler =>
      rcases hchecked with htransfer | hframe
      · rw [falls] at htransfer
        cases htransfer
      · exact joins.shape_arrival hframe harrival
  | jumps transfer adopts => exact adopts.shape_arrival harrival

/-- What is handed on has the shape that the next instruction is entered with. -/
theorem Enters.shape_falls (h : Enters p pass pc before) (hfalls : pass.fallsThrough = true) :
    before.stack.shape = pass.machine.stack.shape := by
  cases h with
  | falls falls joins handler => exact joins.shape_eq
  | jumps transfer adopts =>
      rw [hfalls] at transfer
      cases transfer

end

end Pass

namespace Accepted

variable {pool : Pool} {method : MethodContext} {source rest : Cursor} {code : Code} {raw : RawCode}
  {steps : List PassStep} {s s' : PassStep}

theorem frames (h : Accepted pool method source rest code raw steps) :
    code.frames = (raw.premises method).frames := by
  obtain ⟨keepBytes, rfl⟩ := h.result
  rfl

theorem frame_eq (h : Accepted pool method source rest code raw steps) (pc : UInt16) :
    code.frames.find? (fun frame => frame.offset = pc) = (raw.premises method).frameAt? pc := by
  rw [h.frames, Premises.frameAt?]

theorem unframed (h : Accepted pool method source rest code raw steps) (hframes : code.frames = [])
    (pc : UInt16) : (raw.premises method).frameAt? pc = none := by
  rw [← h.frame_eq, hframes, List.find?_nil]

theorem startsAt_iff (h : Accepted pool method source rest code raw steps) {pc : UInt16} :
    code.StartsAt pc.toNat ↔ ∃ s ∈ steps, s.pc = pc := by
  obtain ⟨keepBytes, rfl⟩ := h.result
  simp only [Code.StartsAt, RawCode.withSteps, List.mem_map, UInt16.toNat_inj]
  constructor
  · rintro ⟨_, ⟨s, hs, rfl⟩, hpc⟩
    exact ⟨s, hs, hpc⟩
  · rintro ⟨s, hs, hpc⟩
    exact ⟨s.verified, ⟨s, hs, rfl⟩, hpc⟩

/-- Control falls into a step exactly if the pass let it. -/
theorem fallenInto_iff (h : Accepted pool method source rest code raw steps) {pre : Pass}
    (hsteps : s :: pre.steps <:+ steps.reverse) (hcoherent : Pass.Coherent (raw.premises method) pre)
    (hnonempty : pre.steps ≠ []) : FallenInto steps s ↔ pre.fallsThrough = true := by
  obtain ⟨prior, earlier, hpre⟩ := List.exists_cons_of_ne_nil hnonempty
  rw [(hcoherent.follows prior earlier hpre).1, Bool.not_eq_true']
  rw [hpre] at hsteps
  constructor
  · rintro ⟨prior', hnext, htransfer⟩
    obtain ⟨earlier', hsteps'⟩ := infix_iff_suffix_reverse.mp hnext
    cases h.earlier_unique hsteps hsteps'
    exact htransfer
  · intro htransfer
    exact ⟨prior, infix_iff_suffix_reverse.mpr ⟨earlier, hsteps⟩, htransfer⟩

theorem target_mem (h : Accepted pool method source rest code raw steps) (hs : s ∈ steps)
    {target : UInt16} (htarget : target ∈ s.targets) : ∃ s' ∈ steps, s'.pc = target := by
  have hmem : s.verified ∈ code.instructions := by
    obtain ⟨keepBytes, rfl⟩ := h.result
    exact List.mem_map_of_mem hs
  exact h.startsAt_iff.mp ((Boundaries.check_ok h.offsets).branches s.verified hmem target htarget)

/-- What the step before leaves is what a step was entered with, but for the return address of a call. -/
theorem shape_next (h : Accepted pool method source rest code raw steps)
    (hnext : [s, s'] <:+: steps) (htransfer : s.instruction.isTransfer = false) :
    s.after.stack.shape =
      s'.before.stack.shape ++ if s.instruction.isSubroutineCall then [.returnAddress] else [] := by
  obtain ⟨earlier, hsteps⟩ := infix_iff_suffix_reverse.mp hnext
  obtain ⟨_, pre, place, next, hreached, hpre, hadvances⟩ := h.taken hsteps
  obtain ⟨hfalls, hhanded⟩ := hreached.coherent.follows s earlier hpre
  rw [htransfer, Bool.not_false] at hfalls
  rw [Pass.handOn_shape hhanded, hadvances.enters.shape_falls hfalls]

/-- What a branch ahead brings is what its target was entered with, or it is overlooked. -/
theorem shape_ahead (h : Accepted pool method source rest code raw steps) (hs : s ∈ steps)
    (htarget : s'.pc ∈ s.targets) (hs' : s' ∈ steps) (hahead : s.pc < s'.pc) :
    s'.before.stack.shape = s.after.stack.shape ↔ ¬ OverlooksBranch code steps s s' := by
  obtain ⟨earlier, hsteps⟩ := suffix_reverse_of_mem hs'
  obtain ⟨_, pre, place, next, hreached, rfl, hadvances⟩ := h.taken hsteps
  have hmem : s ∈ pre.steps := (h.mem_earlier hsteps).mpr ⟨hs, hahead⟩
  obtain ⟨arrival, harrival, hadmits⟩ := hreached.coherent.left s hmem s'.pc htarget hahead
  constructor
  · rintro hagrees ⟨_, _, frame, hframe, hother⟩
    rw [h.frame_eq] at hframe
    exact hother ((hadvances.enters.shape_frame hframe).symm.trans hagrees)
  · intro hoverlooks
    by_cases hchecked : pre.fallsThrough = false ∨ (raw.premises method).frameAt? s'.pc = none
    · rw [← hadmits.shape]
      exact hadvances.enters.shape_arrival harrival hchecked
    · obtain ⟨hfalls, hunframed⟩ := not_or.mp hchecked
      obtain ⟨frame, hframe⟩ := Option.ne_none_iff_exists'.mp hunframed
      have hfallen : FallenInto steps s' :=
        (h.fallenInto_iff hsteps hreached.coherent (List.ne_nil_of_mem hmem)).mpr (by simpa using hfalls)
      rw [hadvances.enters.shape_frame hframe]
      apply Classical.byContradiction
      intro hother
      exact hoverlooks ⟨hahead, hfallen, frame, (h.frame_eq _).trans hframe, hother⟩

/-- A branch back brings what its target was entered with. -/
theorem shape_back (h : Accepted pool method source rest code raw steps) (hs : s ∈ steps)
    {target : UInt16} (htarget : target ∈ s.targets) (hback : target ≤ s.pc) :
    ∃ s' ∈ steps, s'.pc = target ∧ s'.before.stack.shape = s.after.stack.shape := by
  obtain ⟨earlier, hsteps⟩ := suffix_reverse_of_mem hs
  obtain ⟨_, pre, place, next, hreached, rfl, hadvances⟩ := h.taken hsteps
  obtain ⟨branched, hbranched, _, _⟩ := hadvances.branches hreached.coherent
  obtain ⟨entered, hback⟩ := hbranched.back target htarget hback
  obtain ⟨s', hs', hpc, rfl⟩ := hback.entered
  refine ⟨s', ?_, hpc, hback.shape⟩
  rcases List.mem_cons.mp hs' with rfl | hs'
  · exact hs
  · exact ((h.mem_earlier hsteps).mp hs').1

end Accepted

/-- The operand stack agrees along every edge of the control flow of code that is read, but for the branches
that the pass overlooks. -/
theorem Code.read_shapes {pool : Pool} {method : MethodContext} {keepBytes : Bool}
    {source rest : Cursor} {code : Code}
    (h : Code.read pool method keepBytes source = .ok code rest) :
    ∃ raw steps, Accepted pool method source rest code raw steps ∧
      (∀ s ∈ steps, ∀ target ∈ s.targets, ∃ s' ∈ steps, s'.pc = target ∧
        (s'.before.stack.shape = s.after.stack.shape ↔ ¬ OverlooksBranch code steps s s')) ∧
      (∀ s ∈ steps, s.instruction.isTransfer = false → ∃ s', [s, s'] <:+: steps ∧
        s.after.stack.shape =
          s'.before.stack.shape ++ if s.instruction.isSubroutineCall then [.returnAddress] else []) := by
  obtain ⟨raw, steps, haccepted⟩ := Code.read_ok h
  refine ⟨raw, steps, haccepted, ?_, ?_⟩
  · intro s hs target htarget
    by_cases hback : target ≤ s.pc
    · obtain ⟨s', hs', hpc, hshape⟩ := haccepted.shape_back hs htarget hback
      refine ⟨s', hs', hpc, iff_of_true hshape fun hoverlooks => ?_⟩
      exact absurd hoverlooks.ahead (UInt16.not_lt.mpr (hpc ▸ hback))
    · obtain ⟨s', hs', rfl⟩ := haccepted.target_mem hs htarget
      exact ⟨s', hs', rfl, haccepted.shape_ahead hs htarget hs' (UInt16.not_le.mp hback)⟩
  · intro s hs htransfer
    obtain ⟨s', hnext⟩ := haccepted.falls hs htransfer
    exact ⟨s', hnext, haccepted.shape_next hnext htransfer⟩

/-- Code with a branch to a frame that control also falls into, with an integer too few on the stack. -/
def overlookedBranch : Cursor :=
  .ofBytes
    [0, 2, 0, 0, 0, 0, 0, 7, 0x03, 0x03, 0x99, 0, 4, 0x57, 0xb1, 0, 0, 0, 1, 0, 1, 0, 0, 0, 3, 0, 1, 6]

/-- There are branches that the pass overlooks. -/
theorem overlookedBranch_shapes :
    ∃ code rest, Code.read samplePool sampleMethod false overlookedBranch = .ok code rest ∧
      ∃ raw steps, Accepted samplePool sampleMethod overlookedBranch rest code raw steps ∧
        ∃ s ∈ steps, ∃ s' ∈ steps, s'.pc ∈ s.targets ∧ OverlooksBranch code steps s s' := by
  obtain ⟨code, rest, hread, _⟩ : ∃ code rest,
      Code.read samplePool sampleMethod false overlookedBranch = .ok code rest ∧ True :=
    ok_of_success? (P := fun _ => True) (by decide +kernel)
  obtain ⟨raw, steps, haccepted, hbranches, _⟩ := Code.read_shapes hread
  have hdisagree : ∀ steps ∈ stepsOf? samplePool sampleMethod overlookedBranch,
      ∃ s ∈ steps, ∃ target ∈ s.targets, ∀ s' ∈ steps, s'.pc = target →
        s'.before.stack.shape ≠ s.after.stack.shape := by
    decide +kernel
  obtain ⟨s, hs, target, htarget, hother⟩ := hdisagree steps haccepted.stepsOf?
  obtain ⟨s', hs', rfl, hagrees⟩ := hbranches s hs target htarget
  refine ⟨code, rest, hread, raw, steps, haccepted, s, hs, s', hs', htarget, ?_⟩
  exact Classical.byContradiction fun hnot => hother s' hs' rfl (hagrees.mpr hnot)

end ClassFile
