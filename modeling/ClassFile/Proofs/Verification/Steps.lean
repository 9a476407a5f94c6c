import Mathlib.Data.List.Forall2
import ClassFile.Proofs.Verification.Accepted
import ClassFile.Proofs.Verification.Performing

/-! The steps of the verification pass as seen from the stack. However an instruction is entered, the stack is
sound and its counters are zero, so that the pass finds nothing but foreseen faults as long as the
listing holds no others. -/

namespace ClassFile

open OperandStack

/-- How a step comes from a place of a listing: with a sound stack and its counters reset it performs what
was decoded there. -/
structure PassStep.Comes (p : Premises) (place : ListedPlace) (s : PassStep) : Prop where
  pc : s.verified.pc = place.pc
  sound : s.before.stack.Sound
  popped : s.before.stack.popped = 0
  pushed : s.before.stack.pushed = 0
  performed : ∃ decoded, place.decoded = .ok decoded ∧
    decoded.operation.perform ⟨p.method, p.localVariables, place.pc, decoded.next⟩ s.before =
      .ok s.verified.instruction s.after
  effect : s.verified.effect = s.after.stack.effect
  depth : s.verified.depthAfter = s.after.stack.depth

/-- An operation keeps a stack sound, and fails with nothing but foreseen faults. -/
def KeepsSound {α : Type} (op : MachineOp α) : Prop :=
  Yields (fun machine : Machine => machine.stack.Sound) op (fun _ machine => machine.stack.Sound)
    fun fault _ => fault.Foreseen

namespace KeepsSound

variable {α β : Type}

theorem pure (a : α) : KeepsSound (pure a) := Yields.pure fun _ h => h

theorem bind {first : MachineOp α} {next : α → MachineOp β} (hfirst : KeepsSound first)
    (hnext : ∀ a, KeepsSound (next a)) : KeepsSound (first >>= next) := Yields.bind hfirst hnext

theorem get_bind {next : Machine → MachineOp α} (h : ∀ machine, KeepsSound (next machine)) :
    KeepsSound (get >>= next) := fun machine hmachine => h machine machine hmachine

theorem check {result : Except CodeFault α} (h : Foresees result) :
    KeepsSound (MachineOp.ofExcept result) := by
  cases result with
  | ok a => exact pure a
  | error fault => exact Yields.throw fun _ _ => h fault rfl

theorem replaceWith (items : List StackItem) :
    KeepsSound (MachineOp.onStack (OperandStack.replaceWith items)) := by
  intro machine hmachine
  unfold MachineOp.onStack
  rw [replaceWith_run]
  by_cases hroom : machine.stack.maxStack.toNat < OperandStack.slotsOf items
  · rw [if_pos hroom]
    exact ⟨nofun, nofun⟩
  · rw [if_neg hroom]
    exact sound_replaced (Nat.le_of_not_lt hroom)

theorem merge (items : List StackItem) : KeepsSound (MachineOp.onStack (OperandStack.merge items)) := by
  intro machine hmachine
  have hmerge := yields_merge items machine.stack (Exchanged.refl hmachine)
  unfold MachineOp.onStack
  cases hrun : OperandStack.merge items machine.stack with
  | ok _ stack =>
      rw [hrun] at hmerge
      exact hmerge.sound
  | error fault stack =>
      rw [hrun] at hmerge
      exact hmerge.1

theorem modify_locals (f : Machine → Locals) :
    KeepsSound (modify fun machine => { machine with locals := f machine }) := fun _ h => h

end KeepsSound

namespace Pass

variable {p : Premises} {pass next : Pass} {place : ListedPlace}

theorem keepsSound_adopt (arrival : Arrival) : KeepsSound (adopt arrival) :=
  .bind (.replaceWith arrival.items) fun _ => .modify_locals _

theorem keepsSound_enterAfterTransfer (p : Premises) (pass : Pass) (pc : UInt16) :
    KeepsSound (enterAfterTransfer p pass pc) :=
  .bind (.check (foresees_arrivalAfterTransfer p pass pc)) keepsSound_adopt

theorem keepsSound_enterByFallThrough (p : Premises) (pass : Pass) (pc : UInt16) :
    KeepsSound (enterByFallThrough p pass pc) := by
  refine .bind ?_ fun _ => ?_
  · unfold joinAt
    split
    · exact .get_bind fun _ => .bind (.check (foresees_checkShape _ _)) fun _ =>
        .bind (.check (p.foresees_arrivalOf _)) keepsSound_adopt
    · split
      · exact .bind (.merge _) fun _ => .modify_locals _
      · exact .pure ()
  · split
    · exact .get_bind fun _ => .check (foresees_checkShape _ _)
    · exact .pure ()

theorem enter_sound (h : pass.machine.stack.Sound) (pc : UInt16) :
    Foresees (pass.enter p pc) ∧
      ∀ before, pass.enter p pc = .ok before →
        before.stack.Sound ∧ before.stack.popped = 0 ∧ before.stack.pushed = 0 := by
  have hentering : KeepsSound
      (if pass.fallsThrough then enterByFallThrough p pass pc else enterAfterTransfer p pass pc) := by
    split
    · exact keepsSound_enterByFallThrough p pass pc
    · exact keepsSound_enterAfterTransfer p pass pc
  have hrun := hentering pass.machine h
  unfold enter
  dsimp only
  cases hresult : (if pass.fallsThrough then enterByFallThrough p pass pc
      else enterAfterTransfer p pass pc) pass.machine with
  | error fault machine =>
      rw [hresult] at hrun
      refine ⟨.error hrun, ?_⟩
      rintro _ ⟨⟩
  | ok _ machine =>
      rw [hresult] at hrun
      refine ⟨.ok _, ?_⟩
      rintro _ ⟨⟩
      exact ⟨⟨hrun.depth, hrun.limit⟩, rfl, rfl⟩

theorem performAt_sound (pc : UInt16) (decoded : Decoded) {before : Machine}
    (h : before.stack.Sound) (hpopped : before.stack.popped = 0) (hpushed : before.stack.pushed = 0) :
    Foresees (performAt p pc decoded before) ∧
      ∀ i after, performAt p pc decoded before = .ok (i, after) → after.stack.Sound := by
  have hrun := decoded.operation.trades_perform ⟨p.method, p.localVariables, pc, decoded.next⟩ h hpopped
    hpushed before (taken_start h)
  unfold performAt
  cases hresult : decoded.operation.perform ⟨p.method, p.localVariables, pc, decoded.next⟩ before with
  | error fault machine =>
      rw [hresult] at hrun
      refine ⟨.error hrun.1, ?_⟩
      rintro _ _ ⟨⟩
  | ok i machine =>
      rw [hresult] at hrun
      obtain ⟨_, _, hexchanged, _⟩ := hrun
      refine ⟨.ok _, ?_⟩
      rintro _ _ ⟨⟩
      exact hexchanged.sound

theorem handOn_sound {i : Instruction} {after : Machine} (h : after.stack.Sound) :
    Foresees (handOn p i after) ∧
      ∀ machine, handOn p i after = .ok machine → machine.stack.Sound := by
  have hpop := taken_popReturnAddress after.stack (taken_start h)
  unfold handOn
  split
  · cases hresult : popReturnAddress after.stack with
    | error fault stack =>
        rw [hresult] at hpop
        refine ⟨.error hpop.1, ?_⟩
        rintro _ ⟨⟩
    | ok _ stack =>
        rw [hresult] at hpop
        obtain ⟨_, hexchanged, _⟩ := hpop
        refine ⟨.ok _, ?_⟩
        rintro _ ⟨⟩
        exact hexchanged.sound
  · refine ⟨.ok _, ?_⟩
    rintro _ ⟨⟩
    exact h

/-- A step from a sound stack to a sound stack. -/
theorem step_comes (hsound : pass.machine.stack.Sound) (h : pass.step p place = .ok next) :
    ∃ s, PassStep.Comes p place s ∧ next.steps = s :: pass.steps ∧ next.machine.stack.Sound := by
  unfold step at h
  obtain ⟨before, hbefore, h⟩ := bind_ok.mp h
  obtain ⟨decoded, hdecoded, h⟩ := bind_ok.mp h
  obtain ⟨⟨i, after⟩, hperform, h⟩ := bind_ok.mp h
  obtain ⟨branched, _, h⟩ := bind_ok.mp h
  obtain ⟨machine, hmachine, h⟩ := bind_ok.mp h
  cases h
  obtain ⟨hbefore, hpopped, hpushed⟩ := (enter_sound hsound place.pc).2 before hbefore
  have hafter := (performAt_sound place.pc decoded hbefore hpopped hpushed).2 i after hperform
  refine ⟨_, ⟨rfl, hbefore, hpopped, hpushed, ⟨decoded, hdecoded, ?_⟩, rfl, rfl⟩, rfl,
    (handOn_sound hafter).2 machine hmachine⟩
  unfold performAt at hperform
  split at hperform
  · cases hperform
  · rename_i hrun
    cases hperform
    exact hrun

theorem foresees_step (hsound : pass.machine.stack.Sound) (hplace : Foresees place.decoded) :
    Foresees (pass.step p place) := by
  obtain ⟨henter, hbefore⟩ := enter_sound (p := p) hsound place.pc
  refine .bind henter fun before hentered => .bind hplace fun decoded _ => ?_
  obtain ⟨hsound, hpopped, hpushed⟩ := hbefore before hentered
  obtain ⟨hperform, hafter⟩ := performAt_sound (p := p) place.pc decoded hsound hpopped hpushed
  refine .bind hperform fun result hperformed => ?_
  refine .bind (.foldlM (fun branched target => foresees_branch _ branched target) pass) fun _ _ => ?_
  exact .bind (handOn_sound (hafter _ _ hperformed)).1 fun _ _ => .ok _

theorem start_sound (h : Pass.start p = .ok pass) : pass.machine.stack.Sound ∧ pass.steps = [] := by
  unfold Pass.start at h
  obtain ⟨locals, _, h⟩ := bind_ok.mp h
  cases h
  exact ⟨sound_empty p.maxStack, rfl⟩

theorem atOffset_ok {α : Type} {pc : UInt16} {result : Except CodeFault α} {value : α} :
    atOffset pc result = .ok value ↔ result = .ok value := by
  cases result <;> simp [atOffset]

theorem foreseen_atOffset {α : Type} {pc : UInt16} {result : Except CodeFault α} (h : Foresees result) :
    FailsOnly Error.Foreseen (atOffset pc result) := by
  cases result with
  | ok value => exact .ok value
  | error fault => exact .error (Error.foreseen_code (h fault rfl))

theorem run_comes (hsound : pass.machine.stack.Sound) {places : List ListedPlace} {final : Pass}
    (h : run p pass places = .ok final) :
    ∃ steps, List.Forall₂ (PassStep.Comes p) places steps ∧
      final.steps = steps.reverse ++ pass.steps := by
  induction places generalizing pass with
  | nil =>
      cases h
      exact ⟨[], .nil, rfl⟩
  | cons place rest ih =>
      obtain ⟨between, hstep, hrest⟩ := bind_ok.mp h
      obtain ⟨s, hcomes, hsteps, hsound'⟩ := step_comes hsound (atOffset_ok.mp hstep)
      obtain ⟨steps, hall, hfinal⟩ := ih hsound' hrest
      refine ⟨s :: steps, .cons hcomes hall, ?_⟩
      rw [hfinal, hsteps, List.reverse_cons, List.append_assoc, List.singleton_append]

theorem foreseen_run (hsound : pass.machine.stack.Sound) {places : List ListedPlace}
    (hplaces : ∀ place ∈ places, Foresees place.decoded) :
    FailsOnly Error.Foreseen (run p pass places) := by
  induction places generalizing pass with
  | nil => exact .ok pass
  | cons place rest ih =>
      rw [List.forall_mem_cons] at hplaces
      refine .bind (foreseen_atOffset (foresees_step hsound hplaces.1)) fun between hstep => ?_
      obtain ⟨_, _, _, hsound'⟩ := step_comes hsound (atOffset_ok.mp hstep)
      exact ih hsound' hplaces.2

theorem foreseen_finish (codeLength : UInt16) (pass : Pass) :
    FailsOnly Error.Foreseen (pass.finish codeLength) := by
  unfold finish
  split
  · split
    · exact foreseen_atOffset (.error ⟨nofun, nofun⟩)
    · exact foreseen_atOffset (.error ⟨nofun, nofun⟩)
  · exact .ok _

end Pass

namespace Premises

variable {p : Premises} {codeLength : UInt16} {places : List ListedPlace}

/-- The steps that verify a listing come from its places, one from each. -/
theorem verify_comes {steps : List PassStep} (h : p.verify codeLength places = .ok steps) :
    List.Forall₂ (PassStep.Comes p) places steps := by
  obtain ⟨start, hstart, h⟩ := bind_ok.mp h
  obtain ⟨final, hrun, hfinish⟩ := bind_ok.mp h
  obtain ⟨hsound, hnone⟩ := Pass.start_sound (Pass.atOffset_ok.mp hstart)
  obtain ⟨found, hall, hfinal⟩ := Pass.run_comes hsound hrun
  rw [hnone, List.append_nil] at hfinal
  rw [(Pass.finish_ok hfinish).2, hfinal, List.reverse_reverse]
  exact hall

theorem foreseen_verify (hplaces : ∀ place ∈ places, Foresees place.decoded) :
    FailsOnly Error.Foreseen (p.verify codeLength places) := by
  refine .bind (Pass.foreseen_atOffset (Pass.foresees_start p)) fun start hstart => ?_
  obtain ⟨hsound, _⟩ := Pass.start_sound (Pass.atOffset_ok.mp hstart)
  exact .bind (Pass.foreseen_run hsound hplaces) fun _ _ => Pass.foreseen_finish _ _

end Premises

end ClassFile
