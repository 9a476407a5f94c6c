import ClassFile.Proofs.Verification.Depths
import ClassFile.Proofs.Verification.Ledger
import ClassFile.Proofs.Verification.SlotMachine

/-! What is recorded of the effect of an instruction. The counters of the stack are read when the instruction
was performed, and its record is made from what was decoded; whatever the stack, the two agree. -/

namespace ClassFile

/-- The slots that an effect tells of: how many were taken, and how many were put. -/
def StackEffect.slots (effect : StackEffect) : Nat × Nat := (effect.popped.toNat, effect.pushed.toNat)

/-- The slots that an instruction takes and puts. -/
def Instruction.slots (i : Instruction) : Nat × Nat := (i.slotsTaken, i.slotsPut)

/-- A stack instruction takes the items of its form, and puts back what it makes of them. -/
theorem Shuffle.slots_instruction (form : Shuffle) :
    (Instruction.shuffle form).slots =
      (slotsOfWidths (form.group ++ form.below), slotsOfWidths (form.op.rearrange form.group form.below)) := by
  cases form with
  | pop | dup | dupX1 | swap => rfl
  | pop2 form | dup2 form | dupX2 form | dup2X1 form | dup2X2 form => cases form <;> rfl

/-- From counters that are zero, the effect of a stack tells what was moved. -/
theorem OperandStack.Moved.effect_slots {start now : OperandStack} {n m : Nat} (h : Moved start n m now)
    (hstart : start.Sound) (hpopped : start.popped = 0) (hpushed : start.pushed = 0) :
    now.effect.slots = (n, m) := by
  obtain ⟨taken, put, hexchanged, rfl, rfl⟩ := h
  obtain ⟨htaken, hput⟩ := hexchanged.counters hstart hpopped hpushed
  rw [StackEffect.slots, popped_effect, pushed_effect, htaken, hput]

theorem Operation.effect_slots {s : Setting} {op : Operation} {before after : Machine} {i : Instruction}
    (hsound : before.stack.Sound) (hpopped : before.stack.popped = 0) (hpushed : before.stack.pushed = 0)
    (h : op.perform s before = .ok i after) : after.stack.effect.slots = i.slots := by
  have hrun := op.trades_perform s hsound hpopped hpushed before (OperandStack.taken_start hsound)
  rw [h] at hrun
  exact hrun.effect_slots hsound hpopped hpushed

theorem PassStep.Comes.effect_slots {p : Premises} {place : ListedPlace} {s : PassStep}
    (h : PassStep.Comes p place s) : s.verified.effect.slots = s.verified.instruction.slots := by
  obtain ⟨decoded, _, hperform⟩ := h.performed
  rw [h.effect]
  exact Operation.effect_slots h.sound h.popped h.pushed hperform

theorem Accepted.effect_slots {pool : Pool} {method : MethodContext} {source rest : Cursor} {code : Code}
    {raw : RawCode} {steps : List PassStep} (h : Accepted pool method source rest code raw steps) :
    ∀ v ∈ code.instructions, v.effect.slots = v.instruction.slots := by
  intro v hv
  rw [h.instructions] at hv
  obtain ⟨step, hstep, rfl⟩ := List.mem_map.mp hv
  obtain ⟨place, hcomes⟩ := h.comes hstep
  exact hcomes.effect_slots

/-- The effect that is recorded for an instruction is the one that the instruction has by itself: whatever
operation is performed on whatever machine, once counting was started, the counters tell the slots of the
instruction that the operation turned out to be. All stacks that operations make are sound. A stack
instruction takes the items of its form and puts back what it makes of them. -/
theorem Instruction.effect_recorded :
    (∀ maxStack commands, ((Ledger.empty maxStack).recordAll commands).stack.Sound) ∧
      (∀ (s : Setting) (op : Operation) (stack : OperandStack) (locals : Locals) (i : Instruction)
        (after : Machine), stack.Sound → op.perform s ⟨stack.beginInstruction, locals⟩ = .ok i after →
          after.stack.effect.slots = i.slots) ∧
      (∀ pool method keepBytes source code rest, Code.read pool method keepBytes source = .ok code rest →
        ∀ v ∈ code.instructions, v.effect.slots = v.instruction.slots) ∧
      ∀ form : Shuffle, (Instruction.shuffle form).slots =
        (slotsOfWidths (form.group ++ form.below),
          slotsOfWidths (form.op.rearrange form.group form.below)) := by
  refine ⟨fun maxStack commands => (Ledger.balanced_empty.recordAll commands).sound, ?_, ?_,
    Shuffle.slots_instruction⟩
  · intro s op stack locals i after hsound hrun
    have hbegun : stack.beginInstruction.Sound := ⟨hsound.depth, hsound.limit⟩
    exact Operation.effect_slots hbegun rfl rfl hrun
  · intro pool method keepBytes source code rest hread
    obtain ⟨raw, steps, haccepted⟩ := Code.read_ok hread
    exact haccepted.effect_slots

/-- A subroutine is called, which stores its return address. -/
theorem subroutineCall_effects :
    ∃ code rest, Code.read samplePool earlyMethod false subroutineCall = .ok code rest ∧
      code.instructions.map (fun v => v.effect.slots) = [(0, 1), (0, 0), (1, 0), (0, 0)] ∧
      ∀ v ∈ code.instructions, v.effect.slots = v.instruction.slots := by
  obtain ⟨code, rest, hread, heffects⟩ : ∃ code rest,
      Code.read samplePool earlyMethod false subroutineCall = .ok code rest ∧
        code.instructions.map (fun v => v.effect.slots) = [(0, 1), (0, 0), (1, 0), (0, 0)] :=
    ok_of_success? (P := fun code : Code =>
      code.instructions.map (fun v => v.effect.slots) = [(0, 1), (0, 0), (1, 0), (0, 0)]) (by decide +kernel)
  obtain ⟨_, _, hrecorded, _⟩ := Instruction.effect_recorded
  exact ⟨code, rest, hread, heffects, hrecorded _ _ _ _ _ _ hread⟩

end ClassFile
