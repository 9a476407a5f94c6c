import ClassFile.Proofs.Verification.Branches
import ClassFile.Proofs.Verification.Effects

/-! Runs of the verification pass. Every step of a run was taken from a state that the run reached before, and
in all of these states the arrivals stand for the branches of the steps so far. -/

namespace ClassFile

namespace PassStep

/-- Where the instruction of a step stands. -/
abbrev pc (s : PassStep) : UInt16 := s.verified.pc

/-- The instruction of a step. -/
abbrev instruction (s : PassStep) : Instruction := s.verified.instruction

/-- The offsets that the instruction of a step can branch to. -/
abbrev targets (s : PassStep) : List UInt16 := s.verified.instruction.branchTargets

/-- What the instruction of a step does. -/
def transition (s : PassStep) : Pass.Transition := ⟨s.pc, s.before, s.after⟩

end PassStep

theorem Performed.size {i : Instruction} {before after : Machine} (h : Performed i before after) :
    after.locals.slots.size = before.locals.slots.size := by
  by_cases hstore : ∀ kind index, i ≠ .store kind index
  · rw [h.quiet hstore]
  · simp only [ne_eq, Classical.not_forall, Classical.not_not] at hstore
    obtain ⟨kind, index, hi⟩ := hstore
    obtain ⟨c, hstored, _⟩ := h.stored kind index hi
    exact Locals.size_store hstored

theorem Premises.size_arrivalOf {p : Premises} {frame : StackMapFrame} {arrival : Arrival}
    (h : p.arrivalOf frame = .ok arrival) : arrival.locals.slots.size = p.maxLocals.toNat := by
  unfold arrivalOf at h
  obtain ⟨items, _, h⟩ := bind_ok.mp h
  obtain ⟨locals, hlocals, h⟩ := bind_ok.mp h
  cases h
  exact Locals.size_ofFrame hlocals

namespace Pass

variable {p : Premises} {pass next : Pass} {place : ListedPlace} {s : PassStep}

theorem entryAt?_eq_some {steps : List PassStep} {target : UInt16} {entered : Machine}
    (h : entryAt? steps target = some entered) :
    ∃ s ∈ steps, s.pc = target ∧ s.before = entered := by
  obtain ⟨s, hfind, hbefore⟩ := Option.map_eq_some_iff.mp h
  have hpc := List.find?_some hfind
  exact ⟨s, List.mem_of_find?_eq_some hfind, of_decide_eq_true hpc, hbefore⟩

/-- A branch back goes to the start of a step, which is the branching one or one before. -/
theorem GoesBack.entered {target : UInt16} {entered : Machine}
    (h : GoesBack pass s.transition target entered) :
    ∃ s' ∈ s :: pass.steps, s'.pc = target ∧ s'.before = entered := by
  have hentry := h.entry
  split at hentry
  · rename_i hself
    exact ⟨s, List.mem_cons_self, hself.symm, Option.some.inj hentry⟩
  · obtain ⟨s', hs', hfound⟩ := entryAt?_eq_some hentry
    exact ⟨s', List.mem_cons_of_mem s hs', hfound⟩

/-- How a step takes the pass to its next state. -/
structure Advances (p : Premises) (pass : Pass) (place : ListedPlace) (s : PassStep) (next : Pass) :
    Prop where
  pc : s.pc = place.pc
  decoded : ∃ decoded, place.decoded = .ok decoded
  enters : Enters p pass s.pc s.before
  performed : Performed s.instruction s.before s.after
  branched : ∃ branched, s.targets.foldlM (branch s.transition) pass = .ok branched ∧
    next.arrivals = branched.arrivals
  handed : handOn p s.instruction s.after = .ok next.machine
  falls : next.fallsThrough = !s.instruction.isTransfer
  steps : next.steps = s :: pass.steps

theorem step_ok (h : pass.step p place = .ok next) : ∃ s, Advances p pass place s next := by
  unfold step at h
  obtain ⟨before, hbefore, h⟩ := bind_ok.mp h
  obtain ⟨decoded, hdecoded, h⟩ := bind_ok.mp h
  obtain ⟨⟨i, after⟩, hperform, h⟩ := bind_ok.mp h
  obtain ⟨branched, hbranched, h⟩ := bind_ok.mp h
  obtain ⟨machine, hmachine, h⟩ := bind_ok.mp h
  cases h
  refine ⟨⟨⟨place.pc, p.lines.lineAt? place.pc, i, after.stack.effect, after.stack.depth⟩, before, after⟩,
    rfl, ⟨decoded, hdecoded⟩, enter_ok hbefore, ?_, ⟨branched, hbranched, rfl⟩, hmachine, rfl, rfl⟩
  unfold performAt at hperform
  split at hperform
  · cases hperform
  · rename_i hrun
    cases hperform
    exact Operation.performed hrun

/-- What holds between two instructions. All local variables have the slots that the method has, the
arrivals stand for the branches forward so far, and the machine is what the last instruction hands on. -/
structure Coherent (p : Premises) (pass : Pass) : Prop where
  machine : pass.machine.locals.slots.size = p.maxLocals.toNat
  arrivals : pass.ArrivalsHave p.maxLocals.toNat
  left : ∀ s ∈ pass.steps, ∀ target ∈ s.targets, s.pc < target →
    ∃ arrival, pass.arrivalAt? target = some arrival ∧
      arrival.Admits s.after.stack.shape s.after.locals
  caused : ∀ target arrival, pass.arrivalAt? target = some arrival →
    ∃ s ∈ pass.steps, target ∈ s.targets ∧ s.pc < target
  begins : pass.steps = [] → pass.fallsThrough = true ∧ pass.machine.stack.shape = [] ∧
    Locals.atEntry p.maxLocals p.method.isStatic p.method.descriptor = .ok pass.machine.locals
  follows : ∀ s earlier, pass.steps = s :: earlier →
    pass.fallsThrough = !s.instruction.isTransfer ∧
      handOn p s.instruction s.after = .ok pass.machine

theorem Coherent.start (h : Pass.start p = .ok pass) : Coherent p pass := by
  unfold Pass.start at h
  obtain ⟨locals, hlocals, h⟩ := bind_ok.mp h
  cases h
  refine ⟨Locals.size_atEntry hlocals, ?_, ?_, ?_, fun _ => ⟨rfl, rfl, hlocals⟩, ?_⟩
  · rintro _ _ ⟨⟩
  · exact fun _ hmem => absurd hmem List.not_mem_nil
  · rintro _ _ ⟨⟩
  · rintro _ _ ⟨⟩

theorem Joins.size (h : Coherent p pass) {pc : UInt16} {shape : List Category} {locals : Locals}
    (hjoins : Joins p pass pc pass.machine shape locals) :
    locals.slots.size = p.maxLocals.toNat := by
  cases hjoins with
  | frame found described agrees => exact Premises.size_arrivalOf described
  | arrival unframed found agrees => exact (Locals.size_merge _ _).trans h.machine
  | nothing unframed unknown => exact h.machine

theorem Adopts.size (h : Coherent p pass) {pc : UInt16} {shape : List Category} {locals : Locals}
    (hadopts : Adopts p pass pc shape locals) : locals.slots.size = p.maxLocals.toNat := by
  cases hadopts with
  | frame found described agrees => exact Premises.size_arrivalOf described
  | arrival unframed found => exact h.arrivals _ _ found
  | nothing unframed unknown => exact Locals.size_unknown

theorem Enters.size (h : Coherent p pass) {pc : UInt16} {before : Machine}
    (henters : Enters p pass pc before) : before.locals.slots.size = p.maxLocals.toNat := by
  cases henters with
  | falls falls joins handler => exact joins.size h
  | jumps transfer adopts => exact adopts.size h

theorem handOn_ok {i : Instruction} {after machine : Machine} (h : handOn p i after = .ok machine) :
    (i.isSubroutineCall = true ∧ after.stack.shape = machine.stack.shape ++ [.returnAddress] ∧
      machine.locals = Locals.unknown p.maxLocals) ∨
      (i.isSubroutineCall = false ∧ machine = after) := by
  unfold handOn at h
  split at h
  · rename_i hcall
    split at h
    · cases h
    · rename_i hpop
      cases h
      exact .inl ⟨hcall, OperandStack.popReturnAddress_ok hpop, rfl⟩
  · rename_i hcall
    cases h
    exact .inr ⟨Bool.eq_false_iff.mpr hcall, rfl⟩

theorem handOn_size {i : Instruction} {after machine : Machine}
    (h : handOn p i after = .ok machine) (hafter : after.locals.slots.size = p.maxLocals.toNat) :
    machine.locals.slots.size = p.maxLocals.toNat := by
  rcases handOn_ok h with ⟨_, _, hlocals⟩ | ⟨_, rfl⟩
  · rw [hlocals, Locals.size_unknown]
  · exact hafter

namespace Advances

theorem size_after (hadvances : Advances p pass place s next) (h : Coherent p pass) :
    s.after.locals.slots.size = p.maxLocals.toNat :=
  hadvances.performed.size.trans (hadvances.enters.size h)

theorem branches (hadvances : Advances p pass place s next) (h : Coherent p pass) :
    ∃ branched, Branched s.transition s.targets pass branched ∧
      branched.ArrivalsHave p.maxLocals.toNat ∧ next.arrivals = branched.arrivals := by
  obtain ⟨branched, hbranched, harrivals⟩ := hadvances.branched
  obtain ⟨hbranched, hsize⟩ := branches_ok h.arrivals (hadvances.size_after h) hbranched
  exact ⟨branched, hbranched, hsize, harrivals⟩

theorem coherent (hadvances : Advances p pass place s next) (h : Coherent p pass) :
    Coherent p next := by
  obtain ⟨branched, hbranched, hsize, harrivals⟩ := hadvances.branches h
  have hsame : ∀ pc, next.arrivalAt? pc = branched.arrivalAt? pc := by
    intro pc
    rw [arrivalAt?, harrivals, arrivalAt?]
  refine ⟨handOn_size hadvances.handed (hadvances.size_after h), ?_, ?_, ?_, ?_, ?_⟩
  · intro pc arrival harrival
    exact hsize pc arrival (hsame pc ▸ harrival)
  · intro s' hs' target htarget hlt
    rw [hsame]
    rw [hadvances.steps] at hs'
    rcases List.mem_cons.mp hs' with rfl | hs'
    · exact hbranched.forward target htarget hlt
    · obtain ⟨known, hknown, hadmits⟩ := h.left s' hs' target htarget hlt
      obtain ⟨arrival, harrival, hadmits'⟩ := hbranched.kept target known hknown
      exact ⟨arrival, harrival, hadmits'.trans hadmits⟩
  · intro target arrival harrival
    rw [hsame] at harrival
    rw [hadvances.steps]
    rcases hbranched.caused target arrival harrival with ⟨known, hknown⟩ | ⟨htarget, hlt⟩
    · obtain ⟨s', hs', hcaused⟩ := h.caused target known hknown
      exact ⟨s', List.mem_cons_of_mem s hs', hcaused⟩
    · exact ⟨s, List.mem_cons_self, htarget, hlt⟩
  · intro hsteps
    rw [hadvances.steps] at hsteps
    cases hsteps
  · intro s' earlier hsteps
    rw [hadvances.steps] at hsteps
    cases hsteps
    exact ⟨hadvances.falls, hadvances.handed⟩

end Advances

/-- The states that the pass reaches, with the places that it has gone over, the last one first. -/
inductive Reached (p : Premises) : List ListedPlace → Pass → Prop
  | start {pass : Pass} (begins : Pass.start p = .ok pass) : Reached p [] pass
  | step {seen : List ListedPlace} {pass next : Pass} {place : ListedPlace} {s : PassStep}
      (before : Reached p seen pass) (advances : Advances p pass place s next) :
      Reached p (place :: seen) next

theorem run_reached {seen places : List ListedPlace} {final : Pass} (h : Reached p seen pass)
    (hrun : run p pass places = .ok final) : Reached p (places.reverse ++ seen) final := by
  induction places generalizing seen pass with
  | nil =>
      cases hrun
      exact h
  | cons place rest ih =>
      obtain ⟨next, hstep, hrest⟩ := bind_ok.mp hrun
      unfold atOffset at hstep
      split at hstep
      · rename_i hnext
        cases hstep
        obtain ⟨s, hadvances⟩ := step_ok hnext
        rw [List.reverse_cons, List.append_assoc]
        exact ih (.step h hadvances) hrest
      · cases hstep

namespace Reached

variable {seen : List ListedPlace}

theorem coherent (h : Reached p seen pass) : Coherent p pass := by
  induction h with
  | start begins => exact .start begins
  | step before advances ih => exact advances.coherent ih

theorem pcs (h : Reached p seen pass) :
    pass.steps.map PassStep.pc = seen.map ListedPlace.pc := by
  induction h with
  | start begins =>
      obtain ⟨_, _, hpass⟩ := bind_ok.mp begins
      cases hpass
      rfl
  | step before advances ih => rw [advances.steps, List.map_cons, List.map_cons, advances.pc, ih]

/-- Every step of a run was taken from a state that was reached with the steps before it. -/
theorem taken (h : Reached p seen pass) {earlier : List PassStep}
    (hsteps : s :: earlier <:+ pass.steps) :
    ∃ seen' pre place next, Reached p seen' pre ∧ pre.steps = earlier ∧
      Advances p pre place s next := by
  induction h with
  | start begins =>
      obtain ⟨_, _, hpass⟩ := bind_ok.mp begins
      cases hpass
      rw [List.suffix_nil] at hsteps
      cases hsteps
  | step before advances ih =>
      rw [advances.steps, List.suffix_cons_iff] at hsteps
      rcases hsteps with hsame | hearlier
      · cases hsame
        exact ⟨_, _, _, _, before, rfl, advances⟩
      · exact ih hearlier

end Reached

end Pass

end ClassFile
