import ClassFile.Proofs.Verification.Cells
import ClassFile.Proofs.Verification.Reached

/-! What the check of a loop ensures: where the loop, in the order of the code, reads a slot that came back to
it with another value, it stores to the slot before. -/

namespace ClassFile

theorem checkLoop_ok {entered incoming : Locals} {body : List Instruction} {slot : Nat} {c : Category}
    (h : checkLoop entered incoming body = .ok ()) (hentered : entered.slot slot = .value c)
    (hchanged : incoming.slot slot ≠ .value c) (hknown : incoming.slot slot ≠ .unknown) :
    readsBeforeWriting slot body = false := by
  unfold checkLoop at h
  split at h
  · rename_i hnone
    unfold changedSlot? at hnone
    have hslot : slot < entered.slots.size := by
      apply Nat.lt_of_not_le
      intro hout
      rw [Locals.slot_eq_unset hout] at hentered
      cases hentered
    have hunread := List.find?_eq_none.mp hnone slot (List.mem_range.mpr hslot)
    have hmay : (entered.slot slot).mayBecome (incoming.slot slot) = false := by
      rw [hentered]
      simp [LocalSlot.mayBecome, hknown, Ne.symm hchanged]
    simpa [hmay] using hunread
  · cases h

/-- What an instruction writes to a slot that it does not read, it stores there. -/
theorem Instruction.storesOver_of_written {i : Instruction} {slot : Nat}
    (hread : i.localRead?.any (·.covers slot) = false)
    (hwritten : i.localWritten?.any (·.covers slot) = true) : i.StoresOver slot := by
  cases i with
  | store kind index => exact ⟨kind, index, rfl, hwritten⟩
  | increment index delta =>
      rw [show (Instruction.increment index delta).localRead?.any (·.covers slot) = true from hwritten]
        at hread
      cases hread
  | _ => cases hwritten

theorem readsBeforeWriting_split {slot : Nat} {i : Instruction} {before behind : List Instruction}
    (h : readsBeforeWriting slot (before ++ i :: behind) = false)
    (hread : i.localRead?.any (·.covers slot) = true) : ∃ j ∈ before, j.StoresOver slot := by
  induction before with
  | nil =>
      rw [List.nil_append, readsBeforeWriting, if_pos hread] at h
      cases h
  | cons j rest ih =>
      rw [List.cons_append, readsBeforeWriting] at h
      split at h
      · cases h
      rename_i hunread
      split at h
      · rename_i hwritten
        exact ⟨j, List.mem_cons_self,
          Instruction.storesOver_of_written (Bool.eq_false_iff.mpr hunread) hwritten⟩
      · obtain ⟨j', hj', hstores⟩ := ih h
        exact ⟨j', List.mem_cons_of_mem j hj', hstores⟩

namespace Pass

variable {earlier : List PassStep} {s : PassStep} {target : UInt16}

/-- The body of a loop around a step: what stands before the step in it, and what behind. -/
theorem bodyFrom_split (horder : earlier.Pairwise fun a b => b.pc < a.pc) (hs : s ∈ earlier)
    (htarget : target ≤ s.pc) :
    ∃ before behind : List PassStep,
      bodyFrom earlier target = before.map PassStep.instruction ++ s.instruction ::
        behind.map PassStep.instruction ∧
      ∀ w ∈ before, w ∈ earlier ∧ target ≤ w.pc ∧ w.pc < s.pc := by
  obtain ⟨later, rest, rfl⟩ := List.append_of_mem hs
  rw [List.pairwise_append, List.pairwise_cons] at horder
  obtain ⟨_, ⟨hrest, _⟩, hlater⟩ := horder
  refine ⟨(rest.takeWhile fun w => target ≤ w.pc).reverse, later.reverse, ?_, ?_⟩
  · unfold bodyFrom
    rw [List.takeWhile_append_of_pos, List.takeWhile_cons_of_pos (by simpa using htarget),
      List.reverse_append, List.reverse_cons, List.append_assoc, List.singleton_append,
      List.map_append, List.map_cons]
    intro w hw
    have hlt := hlater w hw s List.mem_cons_self
    exact decide_eq_true (UInt16.le_trans htarget (UInt16.le_of_lt hlt))
  · intro w hw
    have hw := List.mem_reverse.mp hw
    have hmem := (List.takeWhile_sublist _).mem hw
    have hfrom := List.all_takeWhile (l := rest) (p := fun w : PassStep => decide (target ≤ w.pc))
    exact ⟨List.mem_append_right _ (List.mem_cons_of_mem s hmem),
      of_decide_eq_true (List.all_eq_true.mp hfrom w hw), hrest w hmem⟩

theorem stored_before_read {slot : Nat} (horder : earlier.Pairwise fun a b => b.pc < a.pc)
    (hs : s ∈ earlier) (htarget : target ≤ s.pc)
    (h : readsBeforeWriting slot (bodyFrom earlier target) = false)
    (hread : s.instruction.localRead?.any (·.covers slot) = true) :
    ∃ w ∈ earlier, w.instruction.StoresOver slot ∧ target ≤ w.pc ∧ w.pc < s.pc := by
  obtain ⟨before, behind, hbody, hbefore⟩ := bodyFrom_split horder hs htarget
  rw [hbody] at h
  obtain ⟨_, hj, hstores⟩ := readsBeforeWriting_split h hread
  obtain ⟨w, hw, rfl⟩ := List.mem_map.mp hj
  obtain ⟨hmem, hfrom, hlt⟩ := hbefore w hw
  exact ⟨w, hmem, hstores, hfrom, hlt⟩

end Pass

end ClassFile
