import ClassFile.Proofs.Verification.Agreement

/-! The operand stack at exception handlers. A handler is entered with the exception and nothing else, whether
control falls into it or comes from the exception only. There is one exception: behind a transfer, what a
frame or a branch says of the handler is not compared with what is caught there. -/

namespace ClassFile

/-- A handler at which the exception is overlooked: it stands behind a transfer, and a frame or a branch
ahead gives it another stack than the one with the exception. -/
structure OverlooksException (code : Code) (steps : List PassStep) (s : PassStep) : Prop where
  behind : ∃ prior, [prior, s] <:+: steps ∧ prior.instruction.isTransfer = true
  other : (∃ frame, code.frames.find? (fun frame => frame.offset = s.pc) = some frame ∧
      frame.shape ≠ [.reference]) ∨
    ∃ branching ∈ steps, branching.pc < s.pc ∧ s.pc ∈ branching.targets ∧
      branching.after.stack.shape ≠ [.reference]

namespace Pass

variable {p : Premises} {pass : Pass} {pc : UInt16} {shape : List Category} {locals : Locals}

/-- A handler behind a transfer is entered with the exception unless something else is known of it. -/
theorem Adopts.shape_handler (hadopts : Adopts p pass pc shape locals) (h : Coherent p pass)
    (hhandler : p.isHandler pc = true) :
    shape = [.reference] ↔
      ¬ ((∃ frame, p.frameAt? pc = some frame ∧ frame.shape ≠ [.reference]) ∨
        ∃ s ∈ pass.steps, s.pc < pc ∧ pc ∈ s.targets ∧ s.after.stack.shape ≠ [.reference]) := by
  have hleft : ∀ s ∈ pass.steps, s.pc < pc → pc ∈ s.targets →
      ∃ arrival, pass.arrivalAt? pc = some arrival ∧ shapeOf arrival.items = s.after.stack.shape := by
    intro s hs hlt htarget
    obtain ⟨arrival, harrival, hadmits⟩ := h.left s hs pc htarget hlt
    exact ⟨arrival, harrival, hadmits.shape⟩
  constructor
  · rintro hshape (⟨frame, hframe, hother⟩ | ⟨s, hs, hlt, htarget, hother⟩)
    · exact hother ((hadopts.shape_frame hframe).symm.trans hshape)
    · obtain ⟨arrival, harrival, hsame⟩ := hleft s hs hlt htarget
      exact hother (hsame.symm.trans ((hadopts.shape_arrival harrival).symm.trans hshape))
  · intro hnone
    obtain ⟨hframes, hbranches⟩ := not_or.mp hnone
    apply Classical.byContradiction
    intro hother
    cases hadopts with
    | frame found described agrees => exact hframes ⟨_, found, hother⟩
    | arrival unframed found =>
        obtain ⟨s, hs, htarget, hlt⟩ := h.caused pc _ found
        obtain ⟨arrival, harrival, hsame⟩ := hleft s hs hlt htarget
        rw [Option.some.inj (found.symm.trans harrival)] at hother
        exact hbranches ⟨s, hs, hlt, htarget, fun hshape => hother (hsame.trans hshape)⟩
    | nothing unframed unknown => exact hother (if_pos hhandler)

end Pass

namespace Accepted

variable {pool : Pool} {method : MethodContext} {source rest : Cursor} {code : Code} {raw : RawCode}
  {steps : List PassStep} {s : PassStep}

theorem isHandler (h : Accepted pool method source rest code raw steps) {handler : ExceptionHandler}
    (hhandler : handler ∈ code.exceptionTable) :
    (raw.premises method).isHandler handler.handler = true := by
  obtain ⟨keepBytes, rfl⟩ := h.result
  rw [Premises.isHandler, Bool.not_eq_true', List.isEmpty_eq_false_iff_exists_mem]
  refine ⟨handler.catchType.map ClassName.type, List.mem_map.mpr ⟨handler, ?_, rfl⟩⟩
  exact List.mem_filter.mpr ⟨hhandler, decide_eq_true rfl⟩

theorem shape_handler (h : Accepted pool method source rest code raw steps) (hs : s ∈ steps)
    (hhandler : (raw.premises method).isHandler s.pc = true) :
    s.before.stack.shape = [.reference] ↔ ¬ OverlooksException code steps s := by
  obtain ⟨earlier, hsteps⟩ := suffix_reverse_of_mem hs
  obtain ⟨_, pre, place, next, hreached, rfl, hadvances⟩ := h.taken hsteps
  have hcoherent := hreached.coherent
  cases hadvances.enters with
  | falls falls joins handler =>
      refine iff_of_true (handler hhandler) ?_
      rintro ⟨⟨prior, hnext, htransfer⟩, _⟩
      obtain ⟨earlier, hsteps'⟩ := infix_iff_suffix_reverse.mp hnext
      have hfollows := (hcoherent.follows prior earlier (h.earlier_unique hsteps hsteps')).1
      rw [falls, htransfer] at hfollows
      cases hfollows
  | jumps transfer adopts =>
      have hbehind : ∃ prior, [prior, s] <:+: steps ∧ prior.instruction.isTransfer = true := by
        cases hpre : pre.steps with
        | nil =>
            rw [(hcoherent.begins hpre).1] at transfer
            cases transfer
        | cons prior earlier =>
            have hfollows := (hcoherent.follows prior earlier hpre).1
            rw [transfer] at hfollows
            exact ⟨prior, infix_iff_suffix_reverse.mpr ⟨earlier, hpre ▸ hsteps⟩, by simpa using hfollows.symm⟩
      refine (adopts.shape_handler hcoherent hhandler).trans (not_congr ⟨?_, ?_⟩)
      · rintro (⟨frame, hframe, hother⟩ | ⟨branching, hmem, hlt, htarget, hother⟩)
        · exact ⟨hbehind, .inl ⟨frame, (h.frame_eq _).trans hframe, hother⟩⟩
        · exact ⟨hbehind, .inr ⟨branching, ((h.mem_earlier hsteps).mp hmem).1, hlt, htarget, hother⟩⟩
      · rintro ⟨_, ⟨frame, hframe, hother⟩ | ⟨branching, hmem, hlt, htarget, hother⟩⟩
        · exact .inl ⟨frame, (h.frame_eq _).symm.trans hframe, hother⟩
        · exact .inr ⟨branching, (h.mem_earlier hsteps).mpr ⟨hmem, hlt⟩, hlt, htarget, hother⟩

end Accepted

/-- Every exception handler of code that is read was entered with the exception and nothing else, but for
those at which it is overlooked. -/
theorem Code.read_handlers {pool : Pool} {method : MethodContext} {keepBytes : Bool}
    {source rest : Cursor} {code : Code}
    (h : Code.read pool method keepBytes source = .ok code rest) :
    ∃ raw steps, Accepted pool method source rest code raw steps ∧
      ∀ handler ∈ code.exceptionTable, ∃ s ∈ steps, s.pc = handler.handler ∧
        (s.before.stack.shape = [.reference] ↔ ¬ OverlooksException code steps s) := by
  obtain ⟨raw, steps, haccepted⟩ := Code.read_ok h
  refine ⟨raw, steps, haccepted, fun handler hhandler => ?_⟩
  obtain ⟨_, _, _, hstarts⟩ := (Boundaries.check_ok haccepted.offsets).ranges handler hhandler
  obtain ⟨s, hs, hpc⟩ := haccepted.startsAt_iff.mp hstarts
  exact ⟨s, hs, hpc, haccepted.shape_handler hs (hpc ▸ haccepted.isHandler hhandler)⟩

/-- Code that jumps to its own exception handler with nothing on the stack. -/
def overlookedException : Cursor :=
  .ofBytes [0, 1, 0, 0, 0, 0, 0, 4, 0xa7, 0, 3, 0xb1, 0, 1, 0, 0, 0, 3, 0, 3, 0, 0, 0, 0]

/-- There are handlers at which the exception is overlooked. -/
theorem overlookedException_handlers :
    ∃ code rest, Code.read samplePool sampleMethod false overlookedException = .ok code rest ∧
      ∃ raw steps, Accepted samplePool sampleMethod overlookedException rest code raw steps ∧
        ∃ handler ∈ code.exceptionTable, ∃ s ∈ steps, s.pc = handler.handler ∧
          OverlooksException code steps s := by
  obtain ⟨code, rest, hread, htable⟩ : ∃ code rest,
      Code.read samplePool sampleMethod false overlookedException = .ok code rest ∧
        code.exceptionTable = [⟨0, 3, 3, none⟩] :=
    ok_of_success? (P := fun code : Code => code.exceptionTable = [⟨0, 3, 3, none⟩])
      (by decide +kernel)
  obtain ⟨raw, steps, haccepted, hhandlers⟩ := Code.read_handlers hread
  have hempty : ∀ steps ∈ stepsOf? samplePool sampleMethod overlookedException,
      ∀ s ∈ steps, s.pc = 3 → s.before.stack.shape = [] := by
    decide +kernel
  have hhandler : ⟨0, 3, 3, none⟩ ∈ code.exceptionTable := by
    rw [htable]
    exact List.mem_singleton_self _
  obtain ⟨s, hs, hpc, hexception⟩ := hhandlers _ hhandler
  refine ⟨code, rest, hread, raw, steps, haccepted, _, hhandler, s, hs, hpc, ?_⟩
  apply Classical.byContradiction
  intro hnot
  have hfound := hexception.mpr hnot
  rw [hempty steps haccepted.stepsOf? s hs hpc] at hfound
  cases hfound

end ClassFile
