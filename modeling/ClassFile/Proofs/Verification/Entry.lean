import ClassFile.Proofs.Success
import ClassFile.Verification.Pass

/-! What an instruction is entered with: the shape of the stack, and the local variables, by where they
come from. -/

namespace ClassFile

theorem MachineOp.onStack_ok {α : Type} {op : StackOp α} {value : α} {machine machine' : Machine} :
    MachineOp.onStack op machine = .ok value machine' ↔
      ∃ stack, op machine.stack = .ok value stack ∧ machine' = { machine with stack } := by
  unfold MachineOp.onStack
  cases op machine.stack with
  | error fault stack => simp
  | ok found stack =>
      simp only [EStateM.Result.ok.injEq]
      constructor
      · rintro ⟨rfl, rfl⟩
        exact ⟨stack, ⟨rfl, rfl⟩, rfl⟩
      · rintro ⟨_, ⟨rfl, rfl⟩, rfl⟩
        exact ⟨rfl, rfl⟩

theorem MachineOp.ofExcept_ok {α : Type} {check : Except CodeFault α} {value : α}
    {machine machine' : Machine} :
    MachineOp.ofExcept check machine = .ok value machine' ↔
      check = .ok value ∧ machine' = machine := by
  cases check with
  | error fault =>
      constructor
      · intro h
        cases h
      · rintro ⟨h, _⟩
        cases h
  | ok found =>
      constructor
      · intro h
        cases h
        exact ⟨rfl, rfl⟩
      · rintro ⟨h, rfl⟩
        cases h
        rfl

theorem checkShape_ok {expected found : List Category} :
    checkShape expected found = .ok () ↔ expected = found := by
  unfold checkShape
  split <;> simp_all

theorem StackItem.category_merge {a b : StackItem} (h : a.category = b.category) :
    (StackItem.merge a b).category = a.category := by
  unfold StackItem.merge
  split
  · rfl
  · split <;> rfl

theorem shapeOf_zipWith_merge {known other : List StackItem} (h : shapeOf known = shapeOf other) :
    shapeOf (List.zipWith StackItem.merge known other) = shapeOf known := by
  simp only [shapeOf, List.reverse_inj] at h ⊢
  induction known generalizing other with
  | nil => rfl
  | cons a rest ih =>
      cases other with
      | nil => cases h
      | cons b rest' =>
          simp only [List.map_cons, List.cons.injEq] at h
          rw [List.zipWith_cons_cons, List.map_cons, List.map_cons, ih h.2,
            StackItem.category_merge h.1]

theorem joinItems_ok {known other items : List StackItem} (h : joinItems known other = .ok items) :
    shapeOf other = shapeOf known ∧ shapeOf items = shapeOf known := by
  unfold joinItems at h
  obtain ⟨_, hshape, hitems⟩ := bind_ok.mp h
  rw [checkShape_ok] at hshape
  cases hitems
  exact ⟨hshape, shapeOf_zipWith_merge hshape.symm⟩

namespace OperandStack

theorem replaceWith_ok {items : List StackItem} {stack stack' : OperandStack}
    (h : replaceWith items stack = .ok () stack') : stack'.items = items := by
  rw [replaceWith_run] at h
  split at h
  · cases h
  · cases h
    rfl

theorem merge_ok {other : List StackItem} {stack stack' : OperandStack}
    (h : merge other stack = .ok () stack') : joinItems stack.items other = .ok stack'.items := by
  rw [merge_run] at h
  cases hjoin : joinItems stack.items other with
  | error fault => simp only [hjoin] at h; cases h
  | ok items => simp only [hjoin] at h; cases h; rfl

theorem joinWithin_ok {maxStack : UInt16} {known other items : List StackItem} :
    joinWithin maxStack known other = .ok items ↔
      slotsOf known ≤ maxStack.toNat ∧ joinItems known other = .ok items := by
  rw [joinWithin_eq]
  split
  · rename_i hfull
    exact ⟨nofun, fun h => absurd h.1 (Nat.not_le.mpr hfull)⟩
  · rename_i hroom
    exact ⟨fun h => ⟨Nat.le_of_not_lt hroom, h⟩, fun h => h.2⟩

end OperandStack

theorem StackItem.category_ofVerificationType {type : VerificationType} {pc : UInt16}
    {item : StackItem} (h : StackItem.ofVerificationType type pc = .ok item) :
    item.category = type.stackCategory := by
  cases type <;> cases h <;> rfl

theorem mapM_ofVerificationType {types : List VerificationType} {pc : UInt16}
    {items : List StackItem}
    (h : types.mapM (StackItem.ofVerificationType · pc) = .ok items) :
    items.map StackItem.category = types.map VerificationType.stackCategory := by
  induction types generalizing items with
  | nil =>
      cases h
      rfl
  | cons type rest ih =>
      rw [List.mapM_cons] at h
      obtain ⟨item, hitem, h⟩ := bind_ok.mp h
      obtain ⟨items', hrest, h⟩ := bind_ok.mp h
      cases h
      rw [List.map_cons, List.map_cons, ih hrest, StackItem.category_ofVerificationType hitem]

namespace Premises

variable {p : Premises}

theorem shape_arrivalOf {frame : StackMapFrame} {arrival : Arrival}
    (h : p.arrivalOf frame = .ok arrival) : shapeOf arrival.items = frame.shape := by
  unfold arrivalOf at h
  obtain ⟨items, hitems, h⟩ := bind_ok.mp h
  obtain ⟨locals, _, h⟩ := bind_ok.mp h
  cases h
  rw [shapeOf, List.map_reverse, List.reverse_reverse, mapM_ofVerificationType hitems]
  rfl

/-- Where no path is known there is an exception or nothing on the stack. -/
theorem shape_unknownArrival (pc : UInt16) :
    shapeOf (p.unknownArrival pc).items = if p.isHandler pc then [.reference] else [] := by
  unfold unknownArrival caughtAt? isHandler
  cases p.catchTypesAt pc <;> rfl

end Premises

namespace Pass

variable {p : Premises} {pass : Pass} {pc : UInt16} {machine machine' : Machine}

theorem adopt_ok {arrival : Arrival} (h : adopt arrival machine = .ok () machine') :
    machine'.stack.items = arrival.items ∧ machine'.locals = arrival.locals := by
  unfold adopt at h
  obtain ⟨_, between, hreplace, hmodify⟩ := bind_run.mp h
  obtain ⟨stack, hstack, rfl⟩ := MachineOp.onStack_ok.mp hreplace
  cases hmodify
  exact ⟨OperandStack.replaceWith_ok hstack, rfl⟩

/-- The shape and the local variables that come of joining what falls into an instruction with what else
is known of it. -/
inductive Joins (p : Premises) (pass : Pass) (pc : UInt16) (falling : Machine) :
    List Category → Locals → Prop
  | frame {frame : StackMapFrame} {arrival : Arrival} (found : p.frameAt? pc = some frame)
      (described : p.arrivalOf frame = .ok arrival) (agrees : frame.shape = falling.stack.shape) :
      Joins p pass pc falling frame.shape arrival.locals
  | arrival {arrival : Arrival} (unframed : p.frameAt? pc = none)
      (found : pass.arrivalAt? pc = some arrival)
      (agrees : shapeOf arrival.items = falling.stack.shape) :
      Joins p pass pc falling falling.stack.shape (falling.locals.merge arrival.locals)
  | nothing (unframed : p.frameAt? pc = none) (unknown : pass.arrivalAt? pc = none) :
      Joins p pass pc falling falling.stack.shape falling.locals

theorem joinAt_ok (h : joinAt p pass pc machine = .ok () machine') :
    Joins p pass pc machine machine'.stack.shape machine'.locals := by
  unfold joinAt at h
  cases hframe : p.frameAt? pc with
  | some frame =>
      simp only [hframe, get_bind_run] at h
      obtain ⟨_, _, hcheck, hrest⟩ := bind_run.mp h
      obtain ⟨hshape, rfl⟩ := MachineOp.ofExcept_ok.mp hcheck
      obtain ⟨arrival, _, hlift, hadopt⟩ := bind_run.mp hrest
      obtain ⟨hdescribed, rfl⟩ := MachineOp.ofExcept_ok.mp hlift
      obtain ⟨hitems, hlocals⟩ := adopt_ok hadopt
      rw [OperandStack.shape, hitems, Premises.shape_arrivalOf hdescribed, hlocals]
      exact .frame hframe hdescribed (checkShape_ok.mp hshape)
  | none =>
      simp only [hframe] at h
      cases harrival : pass.arrivalAt? pc with
      | none =>
          simp only [harrival] at h
          cases h
          exact .nothing hframe harrival
      | some arrival =>
          simp only [harrival] at h
          obtain ⟨_, between, hmerge, hmodify⟩ := bind_run.mp h
          obtain ⟨stack, hstack, rfl⟩ := MachineOp.onStack_ok.mp hmerge
          cases hmodify
          obtain ⟨hagrees, hshape⟩ := joinItems_ok (OperandStack.merge_ok hstack)
          rw [show OperandStack.shape stack = machine.stack.shape from hshape]
          exact .arrival hframe harrival hagrees

/-- The shape and the local variables that an instruction behind a transfer is entered with. -/
inductive Adopts (p : Premises) (pass : Pass) (pc : UInt16) : List Category → Locals → Prop
  | frame {frame : StackMapFrame} {arrival : Arrival} (found : p.frameAt? pc = some frame)
      (described : p.arrivalOf frame = .ok arrival)
      (agrees : ∀ known, pass.arrivalAt? pc = some known → shapeOf known.items = frame.shape) :
      Adopts p pass pc frame.shape arrival.locals
  | arrival {arrival : Arrival} (unframed : p.frameAt? pc = none)
      (found : pass.arrivalAt? pc = some arrival) :
      Adopts p pass pc (shapeOf arrival.items) arrival.locals
  | nothing (unframed : p.frameAt? pc = none) (unknown : pass.arrivalAt? pc = none) :
      Adopts p pass pc (if p.isHandler pc then [.reference] else []) (Locals.unknown p.maxLocals)

theorem enterAfterTransfer_ok (h : enterAfterTransfer p pass pc machine = .ok () machine') :
    Adopts p pass pc machine'.stack.shape machine'.locals := by
  unfold enterAfterTransfer at h
  obtain ⟨arrival, _, hlift, hadopt⟩ := bind_run.mp h
  obtain ⟨hsource, rfl⟩ := MachineOp.ofExcept_ok.mp hlift
  obtain ⟨hitems, hlocals⟩ := adopt_ok hadopt
  rw [OperandStack.shape, hitems, hlocals]
  unfold arrivalAfterTransfer at hsource
  cases hframe : p.frameAt? pc with
  | some frame =>
      cases hknown : pass.arrivalAt? pc with
      | some known =>
          simp only [hframe, hknown] at hsource
          obtain ⟨expected, hexpected, hsource⟩ := bind_ok.mp hsource
          obtain ⟨_, hcheck, hsource⟩ := bind_ok.mp hsource
          cases hsource
          rw [checkShape_ok, Premises.shape_arrivalOf hexpected] at hcheck
          rw [Premises.shape_arrivalOf hexpected]
          refine .frame hframe hexpected fun other hother => ?_
          rw [hknown, Option.some.injEq] at hother
          rw [← hother, hcheck]
      | none =>
          simp only [hframe, hknown] at hsource
          rw [Premises.shape_arrivalOf hsource]
          refine .frame hframe hsource fun other hother => ?_
          rw [hknown] at hother
          cases hother
  | none =>
      cases hknown : pass.arrivalAt? pc with
      | some known =>
          simp only [hframe, hknown] at hsource
          cases hsource
          exact .arrival hframe hknown
      | none =>
          simp only [hframe, hknown] at hsource
          cases hsource
          rw [Premises.shape_unknownArrival]
          exact .nothing hframe hknown

theorem enterByFallThrough_ok (h : enterByFallThrough p pass pc machine = .ok () machine') :
    Joins p pass pc machine machine'.stack.shape machine'.locals ∧
      (p.isHandler pc = true → machine'.stack.shape = [.reference]) := by
  unfold enterByFallThrough at h
  obtain ⟨_, joined, hjoin, hrest⟩ := bind_run.mp h
  by_cases hhandler : p.isHandler pc = true
  · simp only [hhandler, if_true, get_bind_run] at hrest
    obtain ⟨hcheck, rfl⟩ := MachineOp.ofExcept_ok.mp hrest
    exact ⟨joinAt_ok hjoin, fun _ => (checkShape_ok.mp hcheck).symm⟩
  · simp only [hhandler] at hrest
    cases hrest
    exact ⟨joinAt_ok hjoin, fun h => absurd h hhandler⟩

/-- How an instruction is entered: from the one before, where there can be nothing but the exception at a
handler, or behind a transfer. -/
inductive Enters (p : Premises) (pass : Pass) (pc : UInt16) (before : Machine) : Prop
  | falls (falls : pass.fallsThrough = true)
      (joins : Joins p pass pc pass.machine before.stack.shape before.locals)
      (handler : p.isHandler pc = true → before.stack.shape = [.reference])
  | jumps (transfer : pass.fallsThrough = false)
      (adopts : Adopts p pass pc before.stack.shape before.locals)

theorem enter_ok {before : Machine} (h : pass.enter p pc = .ok before) :
    Enters p pass pc before := by
  unfold enter at h
  cases hfalls : pass.fallsThrough with
  | true =>
      simp only [hfalls, if_true] at h
      cases hentering : enterByFallThrough p pass pc pass.machine with
      | error fault machine => simp [hentering] at h
      | ok _ machine =>
          simp only [hentering, Except.ok.injEq] at h
          subst h
          obtain ⟨hjoins, hhandler⟩ := enterByFallThrough_ok hentering
          exact .falls hfalls hjoins hhandler
  | false =>
      simp only [hfalls, Bool.false_eq_true, if_false] at h
      cases hentering : enterAfterTransfer p pass pc pass.machine with
      | error fault machine => simp [hentering] at h
      | ok _ machine =>
          simp only [hentering, Except.ok.injEq] at h
          subst h
          have hadopts := enterAfterTransfer_ok hentering
          exact .jumps hfalls hadopts

end Pass

end ClassFile
