import ClassFile.Proofs.Verification.Relaxed.Performing
import ClassFile.Verification.Pass

/-! The verification pass under weaker premises: with more room, and perhaps without local variables. Step
by step it follows the pass under the stricter ones. It finds the same instructions with the same effects,
and what it leaves at each place is a relaxed form of what the other one left there. -/

namespace ClassFile

/-- Weaker premises for the same method: more room, and perhaps no local variables. -/
structure Premises.Relaxed (p relaxed : Premises) : Prop where
  method : relaxed.method = p.method
  maxStack : p.maxStack ≤ relaxed.maxStack
  maxLocals : p.maxLocals ≤ relaxed.maxLocals
  handlers : relaxed.handlers = p.handlers
  localVariables : relaxed.localVariables = p.localVariables ∨ relaxed.localVariables = []
  frames : relaxed.frames = p.frames

/-- What a path brings, if less is known of it. -/
structure Arrival.Relaxed (few many : UInt16) (arrival relaxed : Arrival) : Prop where
  items : RelaxedItems arrival.items relaxed.items
  locals : arrival.locals.Relaxed few many relaxed.locals

/-- A step under premises and the same step under weaker ones. The line of an instruction is that which the
premises give to it. -/
structure PassStep.Relaxed (p q : Premises) (s relaxed : PassStep) : Prop where
  line : s.verified.line = p.lines.lineAt? s.verified.pc
  verified : relaxed.verified = { s.verified with line := q.lines.lineAt? s.verified.pc }
  before : s.before.Relaxed p.maxLocals q.maxLocals relaxed.before
  after : s.after.Relaxed p.maxLocals q.maxLocals relaxed.after

/-- The state of the pass under premises and under weaker ones. -/
structure Pass.Relaxed (p q : Premises) (pass relaxed : Pass) : Prop where
  machine : pass.machine.Relaxed p.maxLocals q.maxLocals relaxed.machine
  fallsThrough : relaxed.fallsThrough = pass.fallsThrough
  unreached : relaxed.unreached = pass.unreached
  arrivals : List.Forall₂ (fun a b => b.1 = a.1 ∧ a.2.Relaxed p.maxLocals q.maxLocals b.2)
    pass.arrivals relaxed.arrivals
  backward : relaxed.backward = pass.backward
  steps : List.Forall₂ (PassStep.Relaxed p q) pass.steps relaxed.steps

variable {p q : Premises}

theorem PassStep.Relaxed.pc {s t : PassStep} (h : s.Relaxed p q t) : t.verified.pc = s.verified.pc := by
  rw [h.verified]

theorem PassStep.Relaxed.instruction {s t : PassStep} (h : s.Relaxed p q t) :
    t.verified.instruction = s.verified.instruction := by
  rw [h.verified]

namespace Premises.Relaxed

variable (h : p.Relaxed q)
include h

theorem frameAt? (pc : UInt16) : q.frameAt? pc = p.frameAt? pc := by
  rw [Premises.frameAt?, h.frames, Premises.frameAt?]

theorem catchTypesAt (pc : UInt16) : q.catchTypesAt pc = p.catchTypesAt pc := by
  rw [Premises.catchTypesAt, h.handlers, Premises.catchTypesAt]

theorem isHandler (pc : UInt16) : q.isHandler pc = p.isHandler pc := by
  rw [Premises.isHandler, h.catchTypesAt, Premises.isHandler]

theorem arrivalOf (frame : StackMapFrame) :
    Entails (Arrival.Relaxed p.maxLocals q.maxLocals) (p.arrivalOf frame) (q.arrivalOf frame) :=
  .bind (.of_eq RelaxedItems.refl) fun _ _ hitems =>
    .bind (Locals.Relaxed.ofFrame h.maxLocals frame.locals) fun _ _ hlocals =>
      .ok ⟨List.rel_reverse hitems, hlocals⟩

theorem unknownArrival (pc : UInt16) :
    (p.unknownArrival pc).Relaxed p.maxLocals q.maxLocals (q.unknownArrival pc) := by
  refine ⟨?_, .unknown h.maxLocals⟩
  rw [Premises.unknownArrival, Premises.unknownArrival, Premises.caughtAt?, Premises.caughtAt?,
    h.catchTypesAt]
  exact .refl _

end Premises.Relaxed

namespace Pass

open MachineOp

variable {pass relaxed : Pass}

theorem Relaxed.arrivalAt? (hpass : Relaxed p q pass relaxed) (pc : UInt16) :
    Option.Rel (Arrival.Relaxed p.maxLocals q.maxLocals) (pass.arrivalAt? pc) (relaxed.arrivalAt? pc) := by
  have harrivals := hpass.arrivals
  unfold Pass.arrivalAt?
  generalize pass.arrivals = arrivals, relaxed.arrivals = arrivals' at harrivals ⊢
  induction harrivals with
  | nil => exact .none
  | @cons entry entry' _ _ hentry _ ih =>
      obtain ⟨target, arrival⟩ := entry
      obtain ⟨target', arrival'⟩ := entry'
      obtain ⟨htarget, harrival⟩ := hentry
      cases htarget
      rw [List.lookup_cons, List.lookup_cons]
      split
      · exact .some harrival
      · exact ih

/-- Where nothing is known to lead is the same under both premises. -/
theorem Relaxed.unreachedAt (hpass : Relaxed p q pass relaxed) (h : p.Relaxed q) (pc : UInt16) :
    relaxed.unreachedAt q pc = pass.unreachedAt p pc := by
  have hknown : relaxed.isKnown q pc = pass.isKnown p pc := by
    have harrival := hpass.arrivalAt? pc
    unfold Pass.isKnown
    rw [h.frameAt?, h.isHandler]
    generalize pass.arrivalAt? pc = known, relaxed.arrivalAt? pc = known' at harrival ⊢
    cases harrival <;> rfl
  rw [Pass.unreachedAt, hknown, hpass.fallsThrough, hpass.unreached, Pass.unreachedAt]

section Entering

variable (hpass : Relaxed p q pass relaxed) (h : p.Relaxed q) (pc : UInt16)
include hpass h

theorem entails_arrivalAfterTransfer :
    Entails (Arrival.Relaxed p.maxLocals q.maxLocals) (pass.arrivalAfterTransfer p pc)
      (relaxed.arrivalAfterTransfer q pc) := by
  have harrival := hpass.arrivalAt? pc
  unfold arrivalAfterTransfer
  rw [h.frameAt?]
  generalize pass.arrivalAt? pc = known, relaxed.arrivalAt? pc = known' at harrival ⊢
  cases p.frameAt? pc with
  | none =>
      cases harrival with
      | none => exact .ok (h.unknownArrival pc)
      | some harrival => exact .ok harrival
  | some frame =>
      cases harrival with
      | none => exact h.arrivalOf frame
      | some harrival =>
          refine .bind (h.arrivalOf frame) fun expected expected' hexpected => ?_
          rw [hexpected.items.shape, harrival.items.shape]
          exact .bind_same fun _ => .ok hexpected

omit hpass h in
theorem follows_adopt {few many : UInt16} {arrival arrival' : Arrival}
    (h : arrival.Relaxed few many arrival') :
    FollowsRelaxed few many Eq (adopt arrival) (adopt arrival') :=
  .bind (follows_onStack (OperandStack.follows_replaceWith h.items)) fun _ _ _ =>
    follows_setLocals h.locals

theorem follows_joinAt :
    FollowsRelaxed p.maxLocals q.maxLocals Eq (joinAt p pass pc) (joinAt q relaxed pc) := by
  have harrival := hpass.arrivalAt? pc
  unfold joinAt
  rw [h.frameAt?]
  generalize pass.arrivalAt? pc = known, relaxed.arrivalAt? pc = known' at harrival ⊢
  cases p.frameAt? pc with
  | some frame =>
      refine .get_bind fun machine machine' hmachine => ?_
      rw [hmachine.stack.shape]
      exact .bind (follows_ofExcept (.of_eq fun _ => rfl)) fun _ _ (_ : () = ()) =>
        .bind (follows_ofExcept (h.arrivalOf frame)) fun _ _ harrival => follows_adopt harrival
  | none =>
      cases harrival with
      | none => exact .pure rfl
      | some harrival =>
          refine .bind (follows_onStack (OperandStack.follows_merge harrival.items)) fun _ _ _ => ?_
          rintro s t hst _ _ ⟨⟩
          exact ⟨(), _, rfl, rfl, hst.stack, hst.locals.merge harrival.locals⟩

theorem follows_enterByFallThrough :
    FollowsRelaxed p.maxLocals q.maxLocals Eq (enterByFallThrough p pass pc)
      (enterByFallThrough q relaxed pc) := by
  refine .bind (follows_joinAt hpass h pc) fun _ _ _ => ?_
  rw [h.isHandler]
  split
  · refine .get_bind fun machine machine' hmachine => ?_
    rw [hmachine.stack.shape]
    exact follows_ofExcept (.of_eq fun _ => rfl)
  · exact .pure rfl

theorem follows_enterAfterTransfer :
    FollowsRelaxed p.maxLocals q.maxLocals Eq (enterAfterTransfer p pass pc)
      (enterAfterTransfer q relaxed pc) :=
  .bind (follows_ofExcept (entails_arrivalAfterTransfer hpass h pc)) fun _ _ harrival =>
    follows_adopt harrival

theorem entails_enter :
    Entails (Machine.Relaxed p.maxLocals q.maxLocals) (pass.enter p pc) (relaxed.enter q pc) := by
  have hentering : FollowsRelaxed p.maxLocals q.maxLocals Eq
      (if pass.fallsThrough then enterByFallThrough p pass pc else enterAfterTransfer p pass pc)
      (if relaxed.fallsThrough then enterByFallThrough q relaxed pc
        else enterAfterTransfer q relaxed pc) := by
    rw [hpass.fallsThrough]
    split
    · exact follows_enterByFallThrough hpass h pc
    · exact follows_enterAfterTransfer hpass h pc
  intro before hbefore
  unfold enter at hbefore ⊢
  dsimp only at hbefore ⊢
  split at hbefore
  · cases hbefore
  · rename_i machine hrun
    cases hbefore
    obtain ⟨_, machine', hrun', _, hmachine⟩ := hentering _ _ hpass.machine _ _ hrun
    rw [hrun']
    exact ⟨_, rfl, hmachine.stack.beginInstruction, hmachine.locals⟩

end Entering

section Branching

theorem relaxed_entryAt? {steps steps' : List PassStep} (h : List.Forall₂ (PassStep.Relaxed p q) steps steps')
    (target : UInt16) :
    Option.Rel (Machine.Relaxed p.maxLocals q.maxLocals) (entryAt? steps target)
      (entryAt? steps' target) := by
  unfold entryAt?
  induction h with
  | nil => exact .none
  | cons hstep _ ih =>
      rw [List.find?_cons, List.find?_cons, hstep.pc]
      split
      · exact .some hstep.before
      · exact ih

theorem bodyFrom_relaxed {steps steps' : List PassStep} (h : List.Forall₂ (PassStep.Relaxed p q) steps steps')
    (target : UInt16) : bodyFrom steps' target = bodyFrom steps target := by
  have hbody : (steps'.takeWhile fun step => target ≤ step.verified.pc).map (·.verified.instruction) =
      (steps.takeWhile fun step => target ≤ step.verified.pc).map (·.verified.instruction) := by
    induction h with
    | nil => rfl
    | cons hstep _ ih =>
        rw [List.takeWhile_cons, List.takeWhile_cons, hstep.pc]
        split
        · rw [List.map_cons, List.map_cons, ih, hstep.instruction]
        · rfl
  rw [bodyFrom, bodyFrom, List.map_reverse, List.map_reverse, hbody]

/-- What an instruction does to a machine, and what it does to a relaxed one. -/
structure Transition.Relaxed (few many : UInt16) (t relaxed : Transition) : Prop where
  pc : relaxed.pc = t.pc
  before : t.before.Relaxed few many relaxed.before
  after : t.after.Relaxed few many relaxed.after

variable {t t' : Transition} (ht : t.Relaxed p.maxLocals q.maxLocals t')
include ht

theorem entails_branchBack (hpass : Relaxed p q pass relaxed) (target : UInt16) :
    Entails (Relaxed p q) (pass.branchBack t target) (relaxed.branchBack t' target) := by
  have hentry : Option.Rel (Machine.Relaxed p.maxLocals q.maxLocals)
      (if target = t.pc then some t.before else entryAt? pass.steps target)
      (if target = t'.pc then some t'.before else entryAt? relaxed.steps target) := by
    rw [ht.pc]
    split
    · exact .some ht.before
    · exact relaxed_entryAt? hpass.steps target
  unfold branchBack
  rw [bodyFrom_relaxed hpass.steps, ht.after.stack.shape]
  dsimp only
  generalize (if target = t.pc then some t.before else entryAt? pass.steps target) = entry,
    (if target = t'.pc then some t'.before else entryAt? relaxed.steps target) = entry' at hentry ⊢
  cases hentry with
  | none => exact .error
  | some hentered =>
      dsimp only
      rw [hentered.stack.shape]
      refine .bind_same fun _ => .bind (hentered.locals.checkLoop ht.after.locals _) fun _ _ _ =>
        .ok ?_
      exact { hpass with backward := by rw [hpass.backward] }

theorem entails_branchForward (hpass : Relaxed p q pass relaxed) (target : UInt16) :
    Entails (Relaxed p q) (pass.branchForward t target) (relaxed.branchForward t' target) := by
  have harrival := hpass.arrivalAt? target
  unfold branchForward
  generalize pass.arrivalAt? target = known, relaxed.arrivalAt? target = known' at harrival ⊢
  cases harrival with
  | none =>
      exact .ok { hpass with
        arrivals := .cons ⟨rfl, ht.after.stack.items, ht.after.locals⟩ hpass.arrivals }
  | some harrival =>
      refine .bind (harrival.items.joinWithin ht.after.stack.maxStack ht.after.stack.items)
        fun _ _ hitems => .ok ?_
      exact { hpass with
        arrivals := .cons ⟨rfl, hitems, harrival.locals.merge ht.after.locals⟩ hpass.arrivals }

theorem entails_branch (hpass : Relaxed p q pass relaxed) (target : UInt16) :
    Entails (Relaxed p q) (branch t pass target) (branch t' relaxed target) := by
  unfold branch
  rw [ht.pc]
  split
  · exact entails_branchBack ht hpass target
  · exact entails_branchForward ht hpass target

theorem entails_branches (targets : List UInt16) (hpass : Relaxed p q pass relaxed) :
    Entails (Relaxed p q) (targets.foldlM (branch t) pass) (targets.foldlM (branch t') relaxed) :=
  .foldlM (fun _ _ hpass target _ => entails_branch ht hpass target) pass relaxed hpass

end Branching

theorem entails_handOn (h : p.Relaxed q) (i : Instruction) {after after' : Machine}
    (hafter : after.Relaxed p.maxLocals q.maxLocals after') :
    Entails (Machine.Relaxed p.maxLocals q.maxLocals) (handOn p i after) (handOn q i after') := by
  intro machine hmachine
  unfold handOn at hmachine ⊢
  split at hmachine
  · rename_i hcall
    rw [if_pos hcall]
    split at hmachine
    · cases hmachine
    · rename_i hpop
      cases hmachine
      obtain ⟨_, stack', hpop', _, hstack⟩ :=
        OperandStack.follows_popReturnAddress _ _ hafter.stack _ _ hpop
      rw [hpop']
      exact ⟨_, rfl, hstack, .unknown h.maxLocals⟩
  · rename_i hcall
    rw [if_neg hcall]
    cases hmachine
    exact ⟨after', rfl, hafter⟩

theorem entails_performAt (h : p.Relaxed q) (pc : UInt16) (decoded : Decoded) {before before' : Machine}
    (hbefore : before.Relaxed p.maxLocals q.maxLocals before') :
    Entails (fun a b => b.1 = a.1 ∧ a.2.Relaxed p.maxLocals q.maxLocals b.2)
      (performAt p pc decoded before) (performAt q pc decoded before') := by
  rintro ⟨i, after⟩ hperform
  unfold performAt at hperform ⊢
  split at hperform
  · cases hperform
  · rename_i hrun
    cases hperform
    have hsetting : Setting.Relaxed ⟨p.method, p.localVariables, pc, decoded.next⟩
        ⟨q.method, q.localVariables, pc, decoded.next⟩ := ⟨h.method, h.localVariables, rfl, rfl⟩
    obtain ⟨_, after', hrun', rfl, hafter⟩ :=
      decoded.operation.follows_perform hsetting before before' hbefore _ _ hrun
    rw [hrun']
    exact ⟨_, rfl, rfl, hafter⟩

/-- A step of the pass follows the step under stricter premises. -/
theorem entails_step (h : p.Relaxed q) (hpass : Relaxed p q pass relaxed) (place : ListedPlace) :
    Entails (Relaxed p q) (pass.step p place) (relaxed.step q place) := by
  refine .bind (entails_enter hpass h place.pc) fun before before' hbefore => ?_
  refine .bind_same fun decoded => .bind (entails_performAt h place.pc decoded hbefore) ?_
  rintro ⟨i, after⟩ ⟨i', after'⟩ ⟨hi, hafter⟩
  cases hi
  have htransition : Transition.Relaxed p.maxLocals q.maxLocals ⟨place.pc, before, after⟩
      ⟨place.pc, before', after'⟩ := ⟨rfl, hbefore, hafter⟩
  refine .bind (entails_branches htransition _ hpass) fun branched branched' hbranched => ?_
  refine .bind (entails_handOn h i hafter) fun machine machine' hmachine => .ok ?_
  refine ⟨hmachine, rfl, hpass.unreachedAt h place.pc, hbranched.arrivals, hbranched.backward, ?_⟩
  refine .cons ⟨rfl, ?_, hbefore, hafter⟩ hpass.steps
  dsimp only
  rw [hafter.stack.effect, hafter.stack.depth]

theorem entails_atOffset {α : Type} {same : α → α → Prop} {first second : Except CodeFault α}
    (h : Entails same first second) (pc : UInt16) :
    Entails same (atOffset pc first) (atOffset pc second) := by
  cases first with
  | error fault => exact .error
  | ok a =>
      obtain ⟨b, rfl, hsame⟩ := h a rfl
      exact .ok hsame

/-- So does the whole pass. -/
theorem entails_run (h : p.Relaxed q) (places : List ListedPlace) (hpass : Relaxed p q pass relaxed) :
    Entails (Relaxed p q) (run p pass places) (run q relaxed places) := by
  induction places generalizing pass relaxed with
  | nil => exact .ok hpass
  | cons place rest ih =>
      exact .bind (entails_atOffset (entails_step h hpass place) place.pc) fun _ _ hnext => ih hnext

theorem entails_start (h : p.Relaxed q) : Entails (Relaxed p q) (start p) (start q) := by
  unfold start
  rw [h.method]
  exact .bind (Locals.Relaxed.atEntry h.maxLocals _ _) fun _ _ hlocals =>
    .ok ⟨⟨.empty h.maxStack, hlocals⟩, rfl, rfl, .nil, rfl, .nil⟩

theorem entails_finish (hpass : Relaxed p q pass relaxed) (codeLength : UInt16) :
    Entails (List.Forall₂ (PassStep.Relaxed p q)) (pass.finish codeLength) (relaxed.finish codeLength) := by
  unfold finish
  rw [hpass.fallsThrough, hpass.unreached, hpass.backward]
  split
  · split <;> exact .error
  · exact .ok (List.rel_reverse hpass.steps)

end Pass

/-- Code that is verified is also verified under weaker premises, in steps that follow those before. -/
theorem Premises.Relaxed.verify (h : p.Relaxed q) (codeLength : UInt16) (places : List ListedPlace) :
    Entails (List.Forall₂ (PassStep.Relaxed p q)) (p.verify codeLength places)
      (q.verify codeLength places) :=
  .bind (Pass.entails_atOffset (Pass.entails_start h) 0) fun _ _ hstart =>
    .bind (Pass.entails_run h places hstart) fun _ _ hpass => Pass.entails_finish hpass codeLength

end ClassFile
