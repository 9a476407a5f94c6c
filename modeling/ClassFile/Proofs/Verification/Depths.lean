import ClassFile.Proofs.Verification.Agreement
import ClassFile.Proofs.Verification.Steps

/-! The depth of the operand stack along the instructions of code. Each instruction is entered with the depth
that the one before left, less the return address behind a call, whatever is joined there; and what an
instruction reports of its effect accounts for the difference that it makes. -/

namespace ClassFile

namespace StackEffect

/-- The slots that an instruction took off the stack. -/
def popped : StackEffect → UInt16
  | .unchanged => 0
  | .changed popped _ => popped

/-- The slots that an instruction put on the stack. -/
def pushed : StackEffect → UInt16
  | .unchanged => 0
  | .changed _ pushed => pushed

end StackEffect

/-- The depth with which an instruction is entered, the one that it leaves and the effect that it reports
agree, within a limit. -/
structure PassStep.Accounts (limit : UInt16) (s : PassStep) : Prop where
  taken : s.verified.effect.popped ≤ s.before.stack.depth
  balance : s.verified.depthAfter.toNat =
    s.before.stack.depth.toNat - s.verified.effect.popped.toNat + s.verified.effect.pushed.toNat
  entered : s.before.stack.depth ≤ limit
  left : s.verified.depthAfter ≤ limit

namespace OperandStack

variable {stack start : OperandStack}

theorem popped_effect (stack : OperandStack) : stack.effect.popped = stack.popped := by
  unfold effect
  split
  · rename_i hzero
    exact hzero.1.symm
  · rfl

theorem pushed_effect (stack : OperandStack) : stack.effect.pushed = stack.pushed := by
  unfold effect
  split
  · rename_i hzero
    exact hzero.2.symm
  · rfl

/-- The depth of a sound stack is told by its shape. -/
theorem Sound.slots_shape (h : stack.Sound) : Category.slots stack.shape = stack.depth.toNat := by
  rw [shape, shapeOf, Category.slots_reverse, ← slotsOf_eq, h.depth]

theorem Sound.depth_eq_zero (h : stack.Sound) (hshape : stack.shape = []) : stack.depth = 0 := by
  rw [← UInt16.toNat_inj, ← h.slots_shape, hshape]
  rfl

/-- From counters that are zero, those of a stack count what was taken off it and put on it. -/
theorem Exchanged.counters {taken put : List Category} (h : Exchanged start taken put stack)
    (hstart : start.Sound) (hpopped : start.popped = 0) (hpushed : start.pushed = 0) :
    stack.popped.toNat = Category.slots taken ∧ stack.pushed.toNat = Category.slots put := by
  have htaken : Category.slots taken < UInt16.size :=
    Nat.lt_of_le_of_lt (h.taken_le hstart) start.depth.toNat_lt
  have hput : Category.slots put < UInt16.size := Nat.lt_of_le_of_lt h.put_le stack.depth.toNat_lt
  rw [h.popped, h.pushed, hpopped, hpushed, UInt16.zero_add, UInt16.zero_add]
  exact ⟨UInt16.toNat_ofNat_of_lt' htaken, UInt16.toNat_ofNat_of_lt' hput⟩

end OperandStack

open OperandStack

/-- What an instruction leaves of the stack that it is entered with comes from it by taking and putting. -/
theorem PassStep.Comes.exchanged {p : Premises} {place : ListedPlace} {s : PassStep}
    (h : PassStep.Comes p place s) : ∃ taken put, Exchanged s.before.stack taken put s.after.stack := by
  obtain ⟨decoded, _, hperform⟩ := h.performed
  have hrun := decoded.operation.trades_perform ⟨p.method, p.localVariables, place.pc, decoded.next⟩ h.sound
    h.popped h.pushed s.before (taken_start h.sound)
  rw [hperform] at hrun
  obtain ⟨taken, put, hexchanged, _⟩ := hrun
  exact ⟨taken, put, hexchanged⟩

theorem PassStep.Comes.accounts {p : Premises} {place : ListedPlace} {s : PassStep}
    (h : PassStep.Comes p place s) : s.Accounts s.before.stack.maxStack := by
  obtain ⟨taken, put, hexchanged⟩ := h.exchanged
  obtain ⟨hpopped, hpushed⟩ := hexchanged.counters h.sound h.popped h.pushed
  have hfits := hexchanged.taken_le h.sound
  have hbalance := hexchanged.balance h.sound
  have hleft := hexchanged.sound.limit
  rw [hexchanged.maxStack] at hleft
  rw [← popped_effect, ← h.effect] at hpopped
  rw [← pushed_effect, ← h.effect] at hpushed
  refine ⟨?_, ?_, h.sound.limit, ?_⟩
  · rw [UInt16.le_iff_toNat_le, hpopped]
    exact hfits
  · rw [hpopped, hpushed, h.depth]
    omega
  · rw [h.depth]
    exact hleft

/-- An operation leaves the limit of the stack alone. -/
abbrev KeepsLimit {α : Type} (limit : UInt16) (op : MachineOp α) : Prop :=
  Ensures (fun machine : Machine => machine.stack.maxStack = limit) op
    fun _ machine => machine.stack.maxStack = limit

section Limit

variable {limit : UInt16}

theorem keepsLimit_check {α : Type} (result : Except CodeFault α) :
    KeepsLimit limit (MachineOp.ofExcept result) := by
  refine .of_run fun machine a machine' h hrun => ?_
  obtain ⟨_, rfl⟩ := MachineOp.ofExcept_ok.mp hrun
  exact h

theorem keepsLimit_replaceWith (items : List StackItem) :
    KeepsLimit limit (MachineOp.onStack (OperandStack.replaceWith items)) := by
  refine .of_run fun machine _ machine' h hrun => ?_
  obtain ⟨stack, hstack, rfl⟩ := MachineOp.onStack_ok.mp hrun
  rw [replaceWith_run] at hstack
  split at hstack
  · cases hstack
  · cases hstack
    exact h

theorem keepsLimit_merge (items : List StackItem) :
    KeepsLimit limit (MachineOp.onStack (OperandStack.merge items)) := by
  refine .of_run fun machine _ machine' h hrun => ?_
  obtain ⟨stack, hstack, rfl⟩ := MachineOp.onStack_ok.mp hrun
  rw [merge_run] at hstack
  cases hjoin : joinItems machine.stack.items items with
  | error fault =>
      simp only [hjoin] at hstack
      cases hstack
  | ok joined =>
      simp only [hjoin] at hstack
      cases hstack
      exact h

theorem keepsLimit_locals (f : Machine → Locals) :
    KeepsLimit limit (modify fun machine => { machine with locals := f machine }) := by
  refine .of_run fun machine _ machine' h hrun => ?_
  cases hrun
  exact h

end Limit

namespace Pass

variable {p : Premises} {pass next : Pass} {place : ListedPlace} {pc limit : UInt16}

theorem keepsLimit_adopt (arrival : Arrival) : KeepsLimit limit (adopt arrival) :=
  .bind (keepsLimit_replaceWith arrival.items) fun _ => keepsLimit_locals _

theorem keepsLimit_joinAt (p : Premises) (pass : Pass) (pc : UInt16) :
    KeepsLimit limit (joinAt p pass pc) := by
  unfold joinAt
  split
  · exact .get_bind fun _ => .bind (keepsLimit_check _) fun _ => .bind (keepsLimit_check _) keepsLimit_adopt
  · split
    · exact .bind (keepsLimit_merge _) fun _ => keepsLimit_locals _
    · exact .pure fun _ h => h

theorem enter_limit {before : Machine} (h : pass.enter p pc = .ok before) :
    before.stack.maxStack = pass.machine.stack.maxStack := by
  have hentering : KeepsLimit pass.machine.stack.maxStack
      (if pass.fallsThrough then enterByFallThrough p pass pc else enterAfterTransfer p pass pc) := by
    split
    · refine .bind (keepsLimit_joinAt p pass pc) fun _ => ?_
      split
      · exact .get_bind fun _ => keepsLimit_check _
      · exact .pure fun _ h => h
    · exact .bind (keepsLimit_check _) keepsLimit_adopt
  unfold enter at h
  dsimp only at h
  cases hrun : (if pass.fallsThrough then enterByFallThrough p pass pc
      else enterAfterTransfer p pass pc) pass.machine with
  | error fault machine =>
      rw [hrun] at h
      cases h
  | ok _ machine =>
      rw [hrun] at h
      cases h
      exact (hentering.returned rfl hrun :)

theorem handOn_limit {i : Instruction} {after machine : Machine} (hsound : after.stack.Sound)
    (h : handOn p i after = .ok machine) : machine.stack.maxStack = after.stack.maxStack := by
  have hpop := taken_popReturnAddress after.stack (taken_start hsound)
  unfold handOn at h
  split at h
  · split at h
    · cases h
    · rename_i hrun
      cases h
      rw [hrun] at hpop
      obtain ⟨_, hexchanged, _⟩ := hpop
      exact hexchanged.maxStack
  · cases h
    rfl

/-- A step is entered, and hands on, with the limit that the stack had before. -/
theorem step_limit (hsound : pass.machine.stack.Sound) (h : pass.step p place = .ok next) :
    next.machine.stack.maxStack = pass.machine.stack.maxStack ∧
      ∃ s, next.steps = s :: pass.steps ∧ s.before.stack.maxStack = pass.machine.stack.maxStack := by
  obtain ⟨s, hcomes, hsteps, _⟩ := step_comes hsound h
  obtain ⟨_, _, hexchanged⟩ := hcomes.exchanged
  unfold step at h
  obtain ⟨before, hbefore, h⟩ := bind_ok.mp h
  obtain ⟨_, _, h⟩ := bind_ok.mp h
  obtain ⟨_, _, h⟩ := bind_ok.mp h
  obtain ⟨_, _, h⟩ := bind_ok.mp h
  obtain ⟨machine, hmachine, h⟩ := bind_ok.mp h
  cases h
  cases hsteps
  have hentered := enter_limit hbefore
  refine ⟨?_, _, rfl, hentered⟩
  rw [handOn_limit hexchanged.sound hmachine, ← hentered]
  exact hexchanged.maxStack

/-- All steps of a run are entered with the limit that the stack had at its start. -/
theorem run_limit (hsound : pass.machine.stack.Sound) {places : List ListedPlace} {final : Pass}
    (h : run p pass places = .ok final) :
    ∀ s ∈ final.steps, s ∈ pass.steps ∨ s.before.stack.maxStack = pass.machine.stack.maxStack := by
  induction places generalizing pass with
  | nil =>
      cases h
      exact fun s hs => .inl hs
  | cons place rest ih =>
      obtain ⟨between, hstep, hrest⟩ := bind_ok.mp h
      have hstep := atOffset_ok.mp hstep
      obtain ⟨_, _, _, hsound'⟩ := step_comes hsound hstep
      obtain ⟨hlimit, s, hsteps, hbefore⟩ := step_limit hsound hstep
      intro s' hs'
      rcases ih hsound' hrest s' hs' with hs' | hs'
      · rw [hsteps] at hs'
        rcases List.mem_cons.mp hs' with rfl | hs'
        · exact .inr hbefore
        · exact .inl hs'
      · exact .inr (hs'.trans hlimit)

end Pass

theorem Premises.verify_limit {p : Premises} {codeLength : UInt16} {places : List ListedPlace}
    {steps : List PassStep} (h : p.verify codeLength places = .ok steps) :
    ∀ s ∈ steps, s.before.stack.maxStack = p.maxStack := by
  obtain ⟨start, hstart, h⟩ := bind_ok.mp h
  obtain ⟨final, hrun, hfinish⟩ := bind_ok.mp h
  have hstart := Pass.atOffset_ok.mp hstart
  obtain ⟨hsound, hnone⟩ := Pass.start_sound hstart
  have hlimit : start.machine.stack.maxStack = p.maxStack := by
    obtain ⟨_, _, hstart⟩ := bind_ok.mp hstart
    cases hstart
    rfl
  intro s hs
  rw [(Pass.finish_ok hfinish).2, List.mem_reverse] at hs
  rcases Pass.run_limit hsound hrun s hs with hs | hs
  · rw [hnone] at hs
    cases hs
  · exact hs.trans hlimit

namespace Accepted

variable {pool : Pool} {method : MethodContext} {source rest : Cursor} {code : Code} {raw : RawCode}
  {steps : List PassStep} {s s' : PassStep}

theorem comes (h : Accepted pool method source rest code raw steps) (hs : s ∈ steps) :
    ∃ place, PassStep.Comes (raw.premises method) place s := by
  have hall := Premises.verify_comes h.verified
  obtain ⟨n, hn, rfl⟩ := List.getElem_of_mem hs
  exact ⟨_, hall.get (hall.length_eq ▸ hn) hn⟩

theorem accounts (h : Accepted pool method source rest code raw steps) (hs : s ∈ steps) :
    s.Accounts code.maxStack := by
  obtain ⟨place, hcomes⟩ := h.comes hs
  have hlimit : s.before.stack.maxStack = code.maxStack := by
    obtain ⟨keepBytes, rfl⟩ := h.result
    exact Premises.verify_limit h.verified s hs
  exact hlimit ▸ hcomes.accounts

theorem depth_next (h : Accepted pool method source rest code raw steps) (hnext : [s, s'] <:+: steps)
    (htransfer : s.instruction.isTransfer = false) :
    s.verified.depthAfter.toNat =
      s'.before.stack.depth.toNat + if s.instruction.isSubroutineCall then 1 else 0 := by
  obtain ⟨place, hcomes⟩ := h.comes (hnext.mem List.mem_cons_self)
  obtain ⟨place', hcomes'⟩ := h.comes (hnext.mem (List.mem_cons_of_mem s List.mem_cons_self))
  obtain ⟨_, _, hexchanged⟩ := hcomes.exchanged
  rw [hcomes.depth, ← hexchanged.sound.slots_shape, h.shape_next hnext htransfer, Category.slots_append,
    hcomes'.sound.slots_shape]
  split <;> rfl

/-- The first instruction is entered with nothing on the stack. -/
theorem depth_first (h : Accepted pool method source rest code raw steps) {later : List PassStep}
    (hsteps : steps = s :: later) : s.before.stack.depth = 0 := by
  have hfirst : s :: [] <:+ steps.reverse := ⟨later.reverse, by simp [hsteps]⟩
  obtain ⟨_, pre, place, next, hreached, hpre, hadvances⟩ := h.taken hfirst
  obtain ⟨hfalls, hempty, _⟩ := hreached.coherent.begins hpre
  obtain ⟨_, hcomes⟩ := h.comes (hsteps ▸ List.mem_cons_self)
  exact hcomes.sound.depth_eq_zero ((hadvances.enters.shape_falls hfalls).trans hempty)

end Accepted

/-- The depth of the operand stack along the instructions of code that is read. The first one is entered with
nothing on the stack, each one accounts for what it takes and puts within the limit of the code, and where
control falls into the next one this is entered with the depth that was left, less the return address behind
a call. -/
theorem Code.read_depths {pool : Pool} {method : MethodContext} {keepBytes : Bool} {source rest : Cursor}
    {code : Code} (h : Code.read pool method keepBytes source = .ok code rest) :
    ∃ raw steps, Accepted pool method source rest code raw steps ∧
      code.instructions = steps.map PassStep.verified ∧
      (∃ s later, steps = s :: later ∧ s.before.stack.depth = 0) ∧
      (∀ s ∈ steps, s.Accounts code.maxStack) ∧
      ∀ s ∈ steps, s.instruction.isTransfer = false →
        (∃ s', [s, s'] <:+: steps) ∧
        ∀ s', [s, s'] <:+: steps →
          s.verified.depthAfter.toNat =
            s'.before.stack.depth.toNat + if s.instruction.isSubroutineCall then 1 else 0 := by
  obtain ⟨raw, steps, haccepted⟩ := Code.read_ok h
  obtain ⟨first, later, hsteps⟩ := List.exists_cons_of_ne_nil haccepted.ne_nil
  refine ⟨raw, steps, haccepted, haccepted.instructions,
    ⟨first, later, hsteps, haccepted.depth_first hsteps⟩, fun _ hs => haccepted.accounts hs, ?_⟩
  intro s hs htransfer
  exact ⟨haccepted.falls hs htransfer, fun _ hnext => haccepted.depth_next hnext htransfer⟩

/-- Code that calls a subroutine, which stores its return address and returns. -/
def subroutineCall : Cursor :=
  .ofBytes [0, 1, 0, 1, 0, 0, 0, 7, 0xa8, 0, 4, 0xb1, 0x4b, 0xa9, 0, 0, 0, 0, 0]

/-- The method of the sample in a version that has subroutines. -/
def earlyMethod : MethodContext := { sampleMethod with version := ⟨49, 0⟩ }

/-- The call leaves one slot on the stack, but the instruction behind it is entered with none. -/
theorem subroutineCall_depths :
    ∃ code rest, Code.read samplePool earlyMethod false subroutineCall = .ok code rest ∧
      ∃ raw steps, Accepted samplePool earlyMethod subroutineCall rest code raw steps ∧
        ∃ s s', [s, s'] <:+: steps ∧ s.instruction.isSubroutineCall = true ∧
          s.verified.depthAfter = 1 ∧ s'.before.stack.depth = 0 := by
  obtain ⟨code, rest, hread, _⟩ : ∃ code rest,
      Code.read samplePool earlyMethod false subroutineCall = .ok code rest ∧ True :=
    ok_of_success? (P := fun _ => True) (by decide +kernel)
  obtain ⟨raw, steps, haccepted, _, _, _, hnext⟩ := Code.read_depths hread
  have hcalls : ∀ steps ∈ stepsOf? samplePool earlyMethod subroutineCall,
      ∃ s ∈ steps, s.instruction.isTransfer = false ∧ s.instruction.isSubroutineCall = true ∧
        s.verified.depthAfter = 1 := by
    decide +kernel
  obtain ⟨s, hs, htransfer, hcall, hdepth⟩ := hcalls steps haccepted.stepsOf?
  obtain ⟨⟨s', hs'⟩, hentered⟩ := hnext s hs htransfer
  have hentered := hentered s' hs'
  rw [hdepth, hcall, if_pos rfl] at hentered
  change 0 + 1 = s'.before.stack.depth.toNat + 1 at hentered
  have hzero : s'.before.stack.depth.toNat = 0 := (Nat.add_right_cancel hentered).symm
  exact ⟨code, rest, hread, raw, steps, haccepted, s, s', hs', hcall, hdepth, UInt16.toNat_inj.mp hzero⟩

end ClassFile
