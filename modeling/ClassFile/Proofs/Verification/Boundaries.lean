import ClassFile.Proofs.Success
import ClassFile.Verification.Boundaries

/-! What the check of offsets ensures: instructions start where the code and its tables say so. -/

namespace ClassFile

/-- An instruction starts at an offset. -/
def Code.StartsAt (code : Code) (offset : Nat) : Prop :=
  ∃ i ∈ code.instructions, i.pc.toNat = offset

/-- A range may stop at an offset, which is the end of the code or the start of an instruction. -/
def Code.StopsAt (code : Code) (offset : Nat) : Prop :=
  offset = code.codeLength.toNat ∨ code.StartsAt offset

/-- All offsets that some code names are those of its instructions. -/
structure Code.OffsetsInside (code : Code) : Prop where
  branches : ∀ i ∈ code.instructions, ∀ target ∈ i.instruction.branchTargets,
    code.StartsAt target.toNat
  ranges : ∀ h ∈ code.exceptionTable, h.start < h.stop ∧ code.StartsAt h.start.toNat ∧
    code.StopsAt h.stop.toNat ∧ code.StartsAt h.handler.toNat
  lines : ∀ line ∈ code.lineNumbers, code.StartsAt line.start.toNat
  localVariables : ∀ v ∈ code.localVariables, code.StartsAt v.start.toNat ∧ code.StopsAt v.stop
  frames : ∀ frame ∈ code.frames, code.StartsAt frame.offset.toNat

namespace Boundaries

theorem foldl_starts (instructions : List VerifiedInstruction) (starts : Array Bool) (offset : Nat) :
    let marked := instructions.foldl (fun starts i => starts.setIfInBounds i.pc.toNat true) starts
    marked.size = starts.size ∧
      (marked.getD offset false = true →
        starts.getD offset false = true ∨ ∃ i ∈ instructions, i.pc.toNat = offset) := by
  induction instructions generalizing starts with
  | nil => exact ⟨rfl, .inl⟩
  | cons i rest ih =>
      obtain ⟨hsize, hmarked⟩ := ih (starts.setIfInBounds i.pc.toNat true)
      refine ⟨hsize.trans Array.size_setIfInBounds, fun h => ?_⟩
      rcases hmarked h with hstart | ⟨other, hother, hpc⟩
      · by_cases hoffset : i.pc.toNat = offset
        · exact .inr ⟨i, List.mem_cons_self, hoffset⟩
        · rw [Array.getD_eq_getD_getElem?, Array.getElem?_setIfInBounds_ne hoffset,
            ← Array.getD_eq_getD_getElem?] at hstart
          exact .inl hstart
      · exact .inr ⟨other, List.mem_cons_of_mem i hother, hpc⟩

section

variable {code : Code}

theorem isStart_startsAt {offset : Nat}
    (h : (ofInstructions code.codeLength code.instructions).isStart offset = true) :
    code.StartsAt offset := by
  rcases (foldl_starts _ _ _).2 h with hbefore | hstarts
  · rw [Array.getD_eq_getD_getElem?, Array.getElem?_replicate] at hbefore
    split at hbefore <;> cases hbefore
  · exact hstarts

theorem checkStart_ok {role : OffsetRole} {pc : UInt16}
    (h : (ofInstructions code.codeLength code.instructions).checkStart role pc = .ok ()) :
    code.StartsAt pc.toNat := by
  unfold checkStart at h
  split at h
  · exact isStart_startsAt ‹_›
  · cases h

theorem checkStop_ok {role : OffsetRole} {stop : Nat} {start : UInt16}
    (h : (ofInstructions code.codeLength code.instructions).checkStop role stop start = .ok ()) :
    code.StopsAt stop := by
  unfold checkStop at h
  split at h
  · rename_i hstop
    rcases hstop with hend | hstart
    · refine .inl (hend.trans ?_)
      rw [ofInstructions, (foldl_starts _ _ 0).1, Array.size_replicate]
    · exact .inr (isStart_startsAt hstart)
  · cases h

theorem checkTargets_ok {i : VerifiedInstruction}
    (h : (ofInstructions code.codeLength code.instructions).checkTargets i = .ok ()) :
    ∀ target ∈ i.instruction.branchTargets, code.StartsAt target.toNat := by
  intro target htarget
  have htarget := forM_eq_ok.mp h target htarget
  split at htarget
  · exact isStart_startsAt ‹_›
  · cases htarget

theorem checkHandler_ok {handler : ExceptionHandler}
    (h : (ofInstructions code.codeLength code.instructions).checkHandler code.codeLength handler = .ok ()) :
    handler.start < handler.stop ∧ code.StartsAt handler.start.toNat ∧
      code.StopsAt handler.stop.toNat ∧ code.StartsAt handler.handler.toNat := by
  unfold checkHandler at h
  by_cases hrange : handler.stop ≤ handler.start
  · rw [if_pos hrange] at h
    cases h
  by_cases hlength : code.codeLength < handler.stop
  · rw [if_neg hrange, if_pos hlength] at h
    cases h
  rw [if_neg hrange, if_neg hlength] at h
  obtain ⟨_, hstart, h⟩ := bind_ok.mp h
  obtain ⟨_, hstop, hhandler⟩ := bind_ok.mp h
  exact ⟨UInt16.not_le.mp hrange, checkStart_ok hstart, checkStop_ok hstop, checkStart_ok hhandler⟩

theorem checkLine_ok {line : LineNumber}
    (h : (ofInstructions code.codeLength code.instructions).checkLine code.codeLength line = .ok ()) :
    code.StartsAt line.start.toNat := by
  unfold checkLine at h
  split at h
  · cases h
  · exact checkStart_ok h

theorem checkVariable_ok {v : LocalVariable}
    (h : (ofInstructions code.codeLength code.instructions).checkVariable v = .ok ()) :
    code.StartsAt v.start.toNat ∧ code.StopsAt v.stop := by
  obtain ⟨_, hstart, hstop⟩ := bind_ok.mp h
  exact ⟨checkStart_ok hstart, checkStop_ok hstop⟩

theorem check_ok
    (h : (ofInstructions code.codeLength code.instructions).check code = .ok ()) :
    code.OffsetsInside := by
  obtain ⟨_, hbranches, h⟩ := bind_ok.mp h
  obtain ⟨_, hranges, h⟩ := bind_ok.mp h
  obtain ⟨_, hlines, h⟩ := bind_ok.mp h
  obtain ⟨_, hvariables, hframes⟩ := bind_ok.mp h
  exact {
    branches := fun i hi => checkTargets_ok (forM_eq_ok.mp hbranches i hi)
    ranges := fun handler hhandler => checkHandler_ok (forM_eq_ok.mp hranges handler hhandler)
    lines := fun line hline => checkLine_ok (forM_eq_ok.mp hlines line hline)
    localVariables := fun v hv => checkVariable_ok (forM_eq_ok.mp hvariables v hv)
    frames := fun frame hframe => checkStart_ok (forM_eq_ok.mp hframes frame hframe) }

end

end Boundaries

end ClassFile
