import ClassFile.Proofs.Verification.Addresses
import ClassFile.Proofs.Verification.Loops

/-! Local variables along the paths through code. What the pass knows of a local variable where an instruction
reads it is what paths find there, unless a path came back to a loop with another value that the check of
the loop let pass. -/

namespace ClassFile

/-- Control can go on from a step to another: it falls into it, or it takes a branch. -/
inductive Leads (steps : List PassStep) (s s' : PassStep) : Prop
  | falls (next : [s, s'] <:+: steps) (goesOn : s.instruction.isTransfer = false)
  | branches (mem : s' ∈ steps) (target : s'.pc ∈ s.targets)

/-- The paths through code from its start, as the steps that they come through, the last one first. -/
inductive Walk (steps : List PassStep) : List PassStep → Prop
  | start {first : PassStep} (head : steps.head? = some first) : Walk steps [first]
  | step {s s' : PassStep} {earlier : List PassStep} (walk : Walk steps (s :: earlier))
      (leads : Leads steps s s') : Walk steps (s' :: s :: earlier)

/-- What slots hold after the instructions of some steps, the last one first. -/
def Cells.afterSteps (entry : Cells) : List PassStep → Cells
  | [] => entry
  | s :: earlier => (entry.afterSteps earlier).perform s.instruction

theorem Cells.Intact.afterSteps {entry : Cells} (h : entry.Intact) (earlier : List PassStep) :
    (entry.afterSteps earlier).Intact := by
  induction earlier with
  | nil => exact h
  | cons s rest ih => exact ih.perform s.instruction

/-- A path took a branch back from `branching` to `start`, and stored nothing over a slot since then. -/
inductive CameBack (slot : Nat) (start branching : PassStep) : List PassStep → Prop
  | here (earlier : List PassStep) : CameBack slot start branching (start :: branching :: earlier)
  | on {s s' : PassStep} {earlier : List PassStep}
      (since : CameBack slot start branching (s :: earlier))
      (kept : ¬ s.instruction.StoresOver slot) : CameBack slot start branching (s' :: s :: earlier)

/-- A branch back brings something else to a slot than the value that the loop was entered with. -/
structure BringsOther (slot : Nat) (c : Category) (start branching : PassStep) : Prop where
  back : start.pc ≤ branching.pc
  target : start.pc ∈ branching.targets
  entered : start.before.locals.slot slot = .value c
  brought : branching.after.locals.slot slot ≠ .value c

/-- The check of a loop lets another value pass on to a read of the slot: it is not known what the branch back
brings, or the read stands outside of the loop, or the loop stores to the slot before the read, in the order
of the code. -/
structure LosesTrack (steps : List PassStep) (slot : Nat) (c : Category)
    (start branching reading : PassStep) : Prop extends BringsOther slot c start branching where
  unprotected : branching.after.locals.slot slot = .unknown ∨
    ¬ (start.pc ≤ reading.pc ∧ reading.pc < branching.pc) ∨
    ∃ s ∈ steps, s.instruction.StoresOver slot ∧ start.pc ≤ s.pc ∧ s.pc < reading.pc

namespace Pass

variable {p : Premises} {pass : Pass} {pc : UInt16} {shape : List Category} {locals : Locals}
  {arrival : Arrival} {before : Machine}

theorem Joins.admits_machine (h : Joins p pass pc pass.machine shape locals)
    (hcoherent : Coherent p pass) (hframe : p.frameAt? pc = none) :
    locals.Admits pass.machine.locals := by
  cases h with
  | frame found described agrees => rw [hframe] at found; cases found
  | arrival unframed found agrees =>
      exact .merge_left (hcoherent.machine.trans (hcoherent.arrivals _ _ found).symm)
  | nothing unframed unknown => exact .refl _

theorem Joins.admits_arrival (h : Joins p pass pc pass.machine shape locals)
    (hcoherent : Coherent p pass) (hframe : p.frameAt? pc = none)
    (harrival : pass.arrivalAt? pc = some arrival) : locals.Admits arrival.locals := by
  cases h with
  | frame found described agrees => rw [hframe] at found; cases found
  | arrival unframed found agrees =>
      rw [Option.some.inj (harrival.symm.trans found)]
      exact .merge_right (hcoherent.machine.trans (hcoherent.arrivals _ _ found).symm)
  | nothing unframed unknown => rw [unknown] at harrival; cases harrival

theorem Joins.locals_eq (h : Joins p pass pc pass.machine shape locals)
    (hframe : p.frameAt? pc = none) (hunknown : pass.arrivalAt? pc = none) :
    locals = pass.machine.locals := by
  cases h with
  | frame found described agrees => rw [hframe] at found; cases found
  | arrival unframed found agrees => rw [hunknown] at found; cases found
  | nothing unframed unknown => rfl

theorem Adopts.admits_arrival (h : Adopts p pass pc shape locals) (hframe : p.frameAt? pc = none)
    (harrival : pass.arrivalAt? pc = some arrival) : locals.Admits arrival.locals := by
  cases h with
  | frame found described agrees => rw [hframe] at found; cases found
  | arrival unframed found =>
      rw [Option.some.inj (harrival.symm.trans found)]
      exact .refl _
  | nothing unframed unknown => rw [unknown] at harrival; cases harrival

/-- Where there is no frame, what is known of local variables holds for what falls in. -/
theorem Enters.admits_machine (h : Enters p pass pc before) (hcoherent : Coherent p pass)
    (hframe : p.frameAt? pc = none) (hfalls : pass.fallsThrough = true) :
    before.locals.Admits pass.machine.locals := by
  cases h with
  | falls falls joins handler => exact joins.admits_machine hcoherent hframe
  | jumps transfer adopts =>
      rw [hfalls] at transfer
      cases transfer

/-- Where there is no frame, what is known of local variables holds for what branches ahead bring. -/
theorem Enters.admits_arrival (h : Enters p pass pc before) (hcoherent : Coherent p pass)
    (hframe : p.frameAt? pc = none) (harrival : pass.arrivalAt? pc = some arrival) :
    before.locals.Admits arrival.locals := by
  cases h with
  | falls falls joins handler => exact joins.admits_arrival hcoherent hframe harrival
  | jumps transfer adopts => exact adopts.admits_arrival hframe harrival

/-- The first instruction is entered with what the method starts with, if there is no frame. -/
theorem Enters.locals_first (h : Enters p pass pc before) (hcoherent : Coherent p pass)
    (hframe : p.frameAt? pc = none) (hsteps : pass.steps = []) :
    before.locals = pass.machine.locals := by
  have hunknown : pass.arrivalAt? pc = none := by
    apply Option.eq_none_iff_forall_ne_some.mpr
    intro arrival harrival
    obtain ⟨s, hs, _⟩ := hcoherent.caused _ _ harrival
    rw [hsteps] at hs
    cases hs
  cases h with
  | falls falls joins handler => exact joins.locals_eq hframe hunknown
  | jumps transfer adopts =>
      rw [(hcoherent.begins hsteps).1] at transfer
      cases transfer

end Pass

section

variable {pool : Pool} {method : MethodContext} {source rest : Cursor} {code : Code} {raw : RawCode}
  {steps : List PassStep} {s s' : PassStep}

namespace Accepted

theorem leads_mem (hs : Leads steps s s') : s' ∈ steps := by
  cases hs with
  | falls next goesOn => exact next.mem (List.mem_cons_of_mem s (List.mem_singleton_self s'))
  | branches mem target => exact mem

/-- Where control goes on without a branch back, what is known of local variables is what was left. -/
theorem known_ahead (h : Accepted pool method source rest code raw steps) (hframes : code.frames = [])
    (hcall : s.instruction.isSubroutineCall = false) (hs : s ∈ steps) (hleads : Leads steps s s')
    (hahead : ¬ (s'.pc ≤ s.pc ∧ s'.pc ∈ s.targets)) {slot : Nat} {c : Category}
    (hvalue : s'.before.locals.slot slot = .value c) : s.after.locals.slot slot = .value c := by
  have hframe := h.unframed hframes s'.pc
  cases hleads with
  | falls next goesOn =>
      obtain ⟨earlier, hsteps⟩ := infix_iff_suffix_reverse.mp next
      obtain ⟨_, pre, _, _, hreached, hpre, hadvances⟩ := h.taken hsteps
      obtain ⟨hfalls, hhanded⟩ := hreached.coherent.follows s earlier hpre
      rw [goesOn, Bool.not_false] at hfalls
      rcases Pass.handOn_ok hhanded with ⟨hcalls, _⟩ | ⟨_, hsame⟩
      · rw [hcall] at hcalls
        cases hcalls
      rw [← hsame]
      exact (hadvances.enters.admits_machine hreached.coherent hframe hfalls).value slot c hvalue
  | branches mem target =>
      have hlt : s.pc < s'.pc := UInt16.not_le.mp fun hback => hahead ⟨hback, target⟩
      obtain ⟨earlier, hsteps⟩ := suffix_reverse_of_mem mem
      obtain ⟨_, pre, _, _, hreached, rfl, hadvances⟩ := h.taken hsteps
      have hmem : s ∈ pre.steps := (h.mem_earlier hsteps).mpr ⟨hs, hlt⟩
      obtain ⟨arrival, harrival, hadmits⟩ := hreached.coherent.left s hmem s'.pc target hlt
      have hknown := hadvances.enters.admits_arrival hreached.coherent hframe harrival
      exact (hknown.trans hadmits.locals).value slot c hvalue

/-- A branch back passed the check of its loop. -/
theorem loop_checked (h : Accepted pool method source rest code raw steps) (hs : s ∈ steps)
    (hs' : s' ∈ steps) (htarget : s'.pc ∈ s.targets) (hback : s'.pc ≤ s.pc) :
    ∃ earlier, s :: earlier <:+ steps.reverse ∧
      checkLoop s'.before.locals s.after.locals (Pass.bodyFrom earlier s'.pc) = .ok () := by
  obtain ⟨earlier, hsteps⟩ := suffix_reverse_of_mem hs
  obtain ⟨_, pre, _, _, hreached, rfl, hadvances⟩ := h.taken hsteps
  obtain ⟨branched, hbranched, _, _⟩ := hadvances.branches hreached.coherent
  obtain ⟨entered, hgoes⟩ := hbranched.back s'.pc htarget hback
  obtain ⟨found, hfound, hpc, rfl⟩ := hgoes.entered
  have hmem : found ∈ steps := by
    rcases List.mem_cons.mp hfound with rfl | hearlier
    · exact hs
    · exact ((h.mem_earlier hsteps).mp hearlier).1
  obtain rfl := h.eq_of_pc_eq hmem hs' hpc
  exact ⟨pre.steps, hsteps, hgoes.loop⟩

/-- The first step starts with the local variables of the method. -/
theorem locals_first (h : Accepted pool method source rest code raw steps) (hframes : code.frames = [])
    (hfirst : steps.head? = some s) :
    Locals.atEntry code.maxLocals method.isStatic method.descriptor = .ok s.before.locals := by
  have hframe := h.unframed hframes s.pc
  obtain ⟨others, rfl⟩ := List.head?_eq_some_iff.mp hfirst
  have hsteps : s :: [] <:+ (s :: others).reverse := ⟨others.reverse, by simp⟩
  obtain ⟨_, pre, _, _, hreached, hpre, hadvances⟩ := h.taken hsteps
  rw [hadvances.enters.locals_first hreached.coherent hframe hpre]
  obtain ⟨keepBytes, rfl⟩ := h.result
  exact (hreached.coherent.begins hpre).2.2

/-- Along a path, what is known of a slot is what it holds, unless the path came back to a loop with something
else. -/
theorem walk_tracks (h : Accepted pool method source rest code raw steps) (hframes : code.frames = [])
    (hcalls : ∀ s ∈ steps, s.instruction.isSubroutineCall = false) {entry : Locals}
    (hentry : Locals.atEntry code.maxLocals method.isStatic method.descriptor = .ok entry)
    {walk : List PassStep} (hwalk : Walk steps walk) {s : PassStep} {earlier : List PassStep}
    (hsteps : walk = s :: earlier) :
    s ∈ steps ∧ ∀ slot c, s.before.locals.slot slot = .value c →
      Cells.afterSteps entry.slot earlier slot = .value c ∨
        ∃ start ∈ steps, ∃ branching ∈ steps, CameBack slot start branching walk ∧
          BringsOther slot c start branching := by
  induction hwalk generalizing s earlier with
  | start head =>
      cases hsteps
      refine ⟨List.mem_of_mem_head? head, fun slot c hvalue => .inl ?_⟩
      rw [h.locals_first hframes head, Except.ok.injEq] at hentry
      rw [← hvalue, hentry]
      rfl
  | @step s s' earlier walk leads ih =>
      cases hsteps
      obtain ⟨hs, htracks⟩ := ih rfl
      have hs' := leads_mem leads
      refine ⟨hs', fun slot c hvalue => ?_⟩
      by_cases hother : (s'.pc ≤ s.pc ∧ s'.pc ∈ s.targets) ∧ s.after.locals.slot slot ≠ .value c
      · obtain ⟨⟨hback, htarget⟩, hbrought⟩ := hother
        exact .inr ⟨s', hs', s, hs, .here _, hback, htarget, hvalue, hbrought⟩
      have hafter : s.after.locals.slot slot = .value c := by
        by_cases hback : s'.pc ≤ s.pc ∧ s'.pc ∈ s.targets
        · exact Classical.byContradiction fun hbrought => hother ⟨hback, hbrought⟩
        · exact h.known_ahead hframes (hcalls s hs) hs leads hback hvalue
      obtain ⟨_, hperformed⟩ := suffix_reverse_of_mem hs
      obtain ⟨_, _, _, _, _, _, hadvances⟩ := h.taken hperformed
      rcases hadvances.performed.tracks (h.returnAddress_notMem hcalls hs) hafter with
        ⟨_, hstored⟩ | ⟨hkept, hbefore, hleft⟩
      · exact .inl (hstored _)
      rcases htracks slot c hbefore with hholds | ⟨start, hstart, branching, hbranching, hcame, hbrings⟩
      · exact .inl (hleft _ hholds)
      · exact .inr ⟨start, hstart, branching, hbranching, .on hcame hkept, hbrings⟩

/-- The check of a loop protects the reads in it, as far as it goes. -/
theorem losesTrack (h : Accepted pool method source rest code raw steps) {start branching reading : PassStep}
    {slot : Nat} {c : Category} (hstart : start ∈ steps) (hbranching : branching ∈ steps)
    (hreading : reading ∈ steps) (hread : reading.instruction.localRead?.any (·.covers slot) = true)
    (hbrings : BringsOther slot c start branching) : LosesTrack steps slot c start branching reading := by
  refine ⟨hbrings, ?_⟩
  by_cases hknown : branching.after.locals.slot slot = .unknown
  · exact .inl hknown
  by_cases hinside : start.pc ≤ reading.pc ∧ reading.pc < branching.pc
  · obtain ⟨earlier, hsteps, hloop⟩ := h.loop_checked hbranching hstart hbrings.target hbrings.back
    have hunread := checkLoop_ok hloop hbrings.entered hbrings.brought hknown
    have horder : (branching :: earlier).Pairwise fun a b => b.pc < a.pc :=
      (List.pairwise_reverse.mpr h.sorted).sublist hsteps.sublist
    have hmem : reading ∈ earlier := (h.mem_earlier hsteps).mpr ⟨hreading, hinside.2⟩
    obtain ⟨s, hs, hstores, hfrom, hlt⟩ :=
      Pass.stored_before_read (List.pairwise_cons.mp horder).2 hmem hinside.1 hunread hread
    exact .inr (.inr ⟨s, ((h.mem_earlier hsteps).mp hs).1, hstores, hfrom, hlt⟩)
  · exact .inr (.inl hinside)

end Accepted

end

theorem SlotRange.covers_index (range : SlotRange) : range.covers range.index.toNat = true := by
  have hsize := range.category.toNat_size
  simp only [SlotRange.covers, Bool.and_eq_true, decide_eq_true_eq]
  split at hsize <;> omega

/-- In code that is read, without frames and calls of subroutines, a local variable that is known where an
instruction reads it is of the category that the instruction wants, and holds an intact value of it on every
path, unless the path came back to a loop with something else that the check of the loop let pass. -/
theorem Code.read_tracks {pool : Pool} {method : MethodContext} {keepBytes : Bool}
    {source rest : Cursor} {code : Code}
    (h : Code.read pool method keepBytes source = .ok code rest) (hframes : code.frames = [])
    (hcalls : ∀ i ∈ code.instructions, i.instruction.isSubroutineCall = false) :
    ∃ raw steps entry, Accepted pool method source rest code raw steps ∧
      Locals.atEntry code.maxLocals method.isStatic method.descriptor = .ok entry ∧
      ∀ reading earlier range c, Walk steps (reading :: earlier) →
        reading.instruction.localRead? = some range →
        reading.before.locals.slot range.index.toNat = .value c →
        c = range.category ∧
          ((Cells.afterSteps entry.slot earlier).Holds range.index.toNat c ∨
            ∃ start branching,
              CameBack range.index.toNat start branching (reading :: earlier) ∧
              LosesTrack steps range.index.toNat c start branching reading) := by
  obtain ⟨raw, steps, haccepted⟩ := Code.read_ok h
  obtain ⟨first, others, rfl⟩ := List.exists_cons_of_ne_nil haccepted.ne_nil
  have hentry := haccepted.locals_first hframes rfl
  have hcalls : ∀ s ∈ first :: others, s.instruction.isSubroutineCall = false := by
    intro s hs
    refine hcalls s.verified ?_
    rw [haccepted.instructions]
    exact List.mem_map_of_mem hs
  refine ⟨raw, first :: others, first.before.locals, haccepted, hentry, ?_⟩
  intro reading earlier range c hwalk hread hvalue
  obtain ⟨hreading, htracks⟩ := haccepted.walk_tracks hframes hcalls hentry hwalk rfl
  obtain ⟨_, hsteps⟩ := suffix_reverse_of_mem hreading
  obtain ⟨_, _, _, _, _, _, hadvances⟩ := haccepted.taken hsteps
  refine ⟨Locals.load_ok (hadvances.performed.read range hread) hvalue, ?_⟩
  rcases htracks _ c hvalue with hholds | ⟨start, hstart, branching, hbranching, hcame, hbrings⟩
  · exact .inl ((Locals.intact_atEntry hentry).afterSteps earlier _ c hholds)
  · refine .inr ⟨start, branching, hcame, haccepted.losesTrack hstart hbranching hreading ?_ hbrings⟩
    rw [hread]
    exact range.covers_index

/-- Code that counts in a loop. -/
def countingLoop : Cursor :=
  .ofBytes [0, 1, 0, 1, 0, 0, 0, 13, 0x03, 0x3b, 0x1a, 0x99, 0, 9, 0x84, 0, 1, 0xa7, 0xff, 0xf9, 0xb1, 0, 0,
    0, 0]

theorem countingLoop_tracks :
    ∃ code rest, Code.read samplePool sampleMethod false countingLoop = .ok code rest ∧
      ∃ raw steps entry, Accepted samplePool sampleMethod countingLoop rest code raw steps ∧
        Locals.atEntry code.maxLocals true sampleMethod.descriptor = .ok entry ∧
        ∀ reading earlier range c, Walk steps (reading :: earlier) →
          reading.instruction.localRead? = some range →
          reading.before.locals.slot range.index.toNat = .value c →
          c = range.category ∧
            ((Cells.afterSteps entry.slot earlier).Holds range.index.toNat c ∨
              ∃ start branching,
                CameBack range.index.toNat start branching (reading :: earlier) ∧
                LosesTrack steps range.index.toNat c start branching reading) := by
  obtain ⟨code, rest, hread, hframes, hcalls⟩ : ∃ code rest,
      Code.read samplePool sampleMethod false countingLoop = .ok code rest ∧ code.frames = [] ∧
        ∀ i ∈ code.instructions, i.instruction.isSubroutineCall = false :=
    ok_of_success? (P := fun code : Code => code.frames = [] ∧
      ∀ i ∈ code.instructions, i.instruction.isSubroutineCall = false) (by decide +kernel)
  exact ⟨code, rest, hread, Code.read_tracks hread hframes hcalls⟩

/-- Code with a loop that leaves a variable alone on one way through it, and makes it a float on the other. -/
def forkedLoop : Cursor :=
  .ofBytes [0, 1, 0, 1, 0, 0, 0, 11, 0x03, 0x3b, 0x1a, 0x99, 0, 5, 0x0b, 0x43, 0xa7, 0xff, 0xfa, 0, 0, 0, 0]

theorem forkedLoop_walk {steps : List PassStep}
    (h : stepsOf? samplePool sampleMethod forkedLoop = some steps) :
    ∃ reading earlier, Walk steps (reading :: earlier) ∧ reading.instruction = .load .int 0 ∧
      reading.before.locals = ⟨#[.value .int]⟩ ∧
      ∀ entry, Cells.afterSteps entry earlier 0 = .value .float := by
  have hsteps : ∀ steps ∈ stepsOf? samplePool sampleMethod forkedLoop,
      steps.map (fun s => (s.pc, s.instruction, s.before.locals)) =
        [(0, .constant (.int 0), ⟨#[.unset]⟩), (1, .store .int 0, ⟨#[.unset]⟩),
          (2, .load .int 0, ⟨#[.value .int]⟩), (3, .ifZero .eq 8, ⟨#[.value .int]⟩),
          (6, .constant (.float 0), ⟨#[.value .int]⟩), (7, .store .float 0, ⟨#[.value .int]⟩),
          (8, .goto 2, ⟨#[.unknown]⟩)] := by
    decide +kernel
  have hsteps := hsteps steps h
  simp only [List.map_eq_cons_iff, List.map_eq_nil_iff, Prod.mk.injEq] at hsteps
  obtain ⟨zero, _, rfl, ⟨_, hzero, _⟩, set, _, rfl, ⟨_, hset, _⟩, read, _, rfl, ⟨hstart, hread, hknown⟩,
    fork, _, rfl, ⟨_, hfork, _⟩, float, _, rfl, ⟨_, hfloat, _⟩, change, _, rfl, ⟨_, hchange, _⟩,
    back, _, rfl, ⟨_, hback, _⟩, rfl⟩ := hsteps
  refine ⟨read, [back, change, float, fork, read, set, zero], ?_, hread, hknown, fun entry => ?_⟩
  · refine .step (.step (.step (.step (.step (.step (.step (.start rfl) ?_) ?_) ?_) ?_) ?_) ?_) ?_
    · exact .falls ⟨[], [read, fork, float, change, back], rfl⟩ (by rw [hzero]; rfl)
    · exact .falls ⟨[zero], [fork, float, change, back], rfl⟩ (by rw [hset]; rfl)
    · exact .falls ⟨[zero, set], [float, change, back], rfl⟩ (by rw [hread]; rfl)
    · exact .falls ⟨[zero, set, read], [change, back], rfl⟩ (by rw [hfork]; rfl)
    · exact .falls ⟨[zero, set, read, fork], [back], rfl⟩ (by rw [hfloat]; rfl)
    · exact .falls ⟨[zero, set, read, fork, float], [], rfl⟩ (by rw [hchange]; rfl)
    · refine .branches (by simp) ?_
      rw [hstart, PassStep.targets, show back.verified.instruction = .goto 2 from hback]
      exact List.mem_singleton_self 2
  · rw [Cells.afterSteps, Cells.afterSteps, hback, hchange]
    rfl

/-- Known local variables do not always hold what is known of them: the second time around the loop, the
variable that is read as an integer holds a float. -/
theorem not_all_tracked :
    ¬ ∀ pool method keepBytes source rest code raw steps entry,
      Code.read pool method keepBytes source = .ok code rest → code.frames = [] →
      code.exceptionTable = [] →
      (∀ i ∈ code.instructions, i.instruction.isSubroutineCall = false ∧
        ∀ index, i.instruction ≠ .ret index) →
      Accepted pool method source rest code raw steps →
      Locals.atEntry code.maxLocals method.isStatic method.descriptor = .ok entry →
      ∀ reading earlier range c, Walk steps (reading :: earlier) →
        reading.instruction.localRead? = some range →
        reading.before.locals.slot range.index.toNat = .value c →
        (Cells.afterSteps entry.slot earlier).Holds range.index.toNat c := by
  intro hall
  obtain ⟨code, rest, hread, hframes, hhandlers, hinstructions⟩ : ∃ code rest,
      Code.read samplePool sampleMethod false forkedLoop = .ok code rest ∧ code.frames = [] ∧
        code.exceptionTable = [] ∧ code.instructions.map (·.instruction) =
          [.constant (.int 0), .store .int 0, .load .int 0, .ifZero .eq 8, .constant (.float 0),
            .store .float 0, .goto 2] :=
    ok_of_success? (P := fun code : Code => code.frames = [] ∧
      code.exceptionTable = [] ∧ code.instructions.map (·.instruction) =
        [.constant (.int 0), .store .int 0, .load .int 0, .ifZero .eq 8, .constant (.float 0),
          .store .float 0, .goto 2]) (by decide +kernel)
  have hnocalls : ∀ i ∈ code.instructions, i.instruction.isSubroutineCall = false ∧
      ∀ index, i.instruction ≠ .ret index := by
    intro i hi
    have hmem : i.instruction ∈ code.instructions.map (·.instruction) := List.mem_map_of_mem hi
    rw [hinstructions] at hmem
    generalize i.instruction = instruction at hmem ⊢
    revert instruction
    simp [Instruction.isSubroutineCall]
  obtain ⟨raw, steps, haccepted⟩ := Code.read_ok hread
  obtain ⟨first, others, rfl⟩ := List.exists_cons_of_ne_nil haccepted.ne_nil
  obtain ⟨reading, earlier, hwalk, hload, hknown, hfloat⟩ := forkedLoop_walk haccepted.stepsOf?
  have hholds := hall _ _ _ _ _ code raw _ _ hread hframes hhandlers hnocalls haccepted
    (haccepted.locals_first hframes rfl) reading earlier ⟨0, .int⟩ .int hwalk (by rw [hload]; rfl)
    (by rw [hknown]; rfl)
  have hvalue := hholds.value
  rw [show (SlotRange.mk 0 .int).index.toNat = 0 from rfl, hfloat] at hvalue
  cases hvalue

end ClassFile
