import ClassFile.Proofs.Outcome
import ClassFile.Proofs.Verification.Entry

/-! What operations leave unchanged. All of them but stores leave the local variables alone, and what is on
the stack afterwards was there before or was made by the instruction, so that a property of the items that
all values have but return addresses may not is lost at most by a call of a subroutine. -/

namespace ClassFile

namespace OperandStack

/-- All items have a property. -/
def Holds (P : StackItem → Prop) (stack : OperandStack) : Prop := ∀ item ∈ stack.items, P item

variable {P : StackItem → Prop} {stack stack' : OperandStack} {item : StackItem}

theorem peekAt_ok {n : Nat} (h : peekAt n stack = .ok item stack') :
    stack' = stack ∧ stack.items[n]? = some item := by
  rw [peekAt, get_bind_run] at h
  cases hitem : stack.items[n]? with
  | none => simp only [hitem] at h; cases h
  | some found => simp only [hitem] at h; cases h; exact ⟨rfl, rfl⟩

theorem pop_ok (h : pop stack = .ok item stack') : stack.items = item :: stack'.items := by
  rw [pop, get_bind_run] at h
  cases hitems : stack.items with
  | nil => simp only [hitems] at h; cases h
  | cons top rest =>
      simp only [hitems] at h
      obtain ⟨_, _, hset, hpure⟩ := bind_run.mp h
      cases hset
      cases hpure
      rfl

theorem popIf_ok {expected : Subject} {accepts : StackItem → Bool}
    (h : popIf expected accepts stack = .ok item stack') :
    accepts item = true ∧ stack.items = item :: stack'.items := by
  unfold popIf at h
  obtain ⟨top, between, hpeek, hpop⟩ := bind_run.mp h
  obtain ⟨rfl, htop⟩ := peekAt_ok hpeek
  by_cases haccepts : accepts top = true
  · rw [if_pos haccepts] at hpop
    have hitems := pop_ok hpop
    rw [hitems, List.getElem?_cons_zero, Option.some.injEq] at htop
    exact ⟨htop ▸ haccepts, hitems⟩
  · rw [if_neg haccepts] at hpop
    cases hpop

theorem holds_popIf (expected : Subject) (accepts : StackItem → Bool) :
    Ensures (Holds P) (popIf expected accepts) fun item stack => P item ∧ stack.Holds P := by
  refine .of_run fun stack item stack' hstack h => ?_
  obtain ⟨_, hitems⟩ := popIf_ok h
  unfold Holds at hstack
  rw [hitems, List.forall_mem_cons] at hstack
  exact hstack

theorem holds_peekAt (n : Nat) :
    Ensures (Holds P) (peekAt n) fun _ stack => stack.Holds P := by
  refine .of_run fun stack item stack' hstack h => ?_
  obtain ⟨rfl, _⟩ := peekAt_ok h
  exact hstack

theorem holds_popValue (c : Category) :
    Ensures (Holds P) (popValue c) fun item stack => P item ∧ stack.Holds P := by
  cases c <;> exact holds_popIf _ _

theorem popReturnAddress_ok (h : popReturnAddress stack = .ok item stack') :
    stack.shape = stack'.shape ++ [.returnAddress] := by
  obtain ⟨haccepts, hitems⟩ := popIf_ok h
  cases item with
  | numeric _ _ => cases haccepts
  | reference _ _ => cases haccepts
  | returnAddress target =>
      rw [shape, shapeOf, hitems, List.map_cons, List.reverse_cons]
      rfl

theorem reserve_ok {slots : UInt16} (h : reserve slots stack = .ok () stack') : stack' = stack := by
  rw [reserve, get_bind_run] at h
  by_cases hroom : stack.maxStack.toNat < stack.depth.toNat + slots.toNat
  · rw [if_pos hroom] at h
    cases h
  · rw [if_neg hroom] at h
    cases h
    rfl

theorem push_ok (h : push item stack = .ok () stack') : stack'.items = item :: stack.items := by
  unfold push at h
  obtain ⟨_, between, hreserve, hmodify⟩ := bind_run.mp h
  rw [reserve_ok hreserve] at hmodify
  cases hmodify
  rfl

theorem holds_push (hitem : P item) : Ensures (Holds P) (push item) fun _ stack => stack.Holds P := by
  refine .of_run fun stack _ stack' hstack h => ?_
  unfold Holds
  rw [push_ok h, List.forall_mem_cons]
  exact ⟨hitem, hstack⟩

theorem holds_reserve (slots : UInt16) :
    Ensures (Holds P) (reserve slots) fun _ stack => stack.Holds P := by
  refine .of_run fun stack _ stack' hstack h => ?_
  rw [reserve_ok h]
  exact hstack

theorem holds_pushReserved (hitem : P item) :
    Ensures (Holds P) (pushReserved item) fun _ stack => stack.Holds P := by
  refine .of_run fun stack _ stack' hstack h => ?_
  unfold pushReserved at h
  cases hpush : push item stack with
  | error fault between => simp [hpush] at h
  | ok _ between =>
      simp only [hpush, EStateM.Result.ok.injEq] at h
      rw [← h.2]
      exact (holds_push hitem).returned hstack hpush

theorem holds_pushAllReserved (items : List StackItem) (hitems : ∀ item ∈ items, P item) :
    Ensures (Holds P) (pushAllReserved items) fun _ stack => stack.Holds P := by
  induction items with
  | nil => exact .pure fun _ h => h
  | cons item rest ih =>
      rw [List.forall_mem_cons] at hitems
      exact .bind (holds_pushReserved hitems.1) fun _ => ih hitems.2

/-- What is known of the top item may be used on the way to choose a form. -/
theorem holds_peek_bind {α : Type} {n : Nat} {next : StackItem → StackOp α}
    (h : ∀ item, Ensures (Holds P) (next item) fun _ stack => stack.Holds P) :
    Ensures (Holds P) (peekAt n >>= next) fun _ stack => stack.Holds P :=
  .bind (holds_peekAt n) h

/-- An item that was taken has the property too. -/
theorem holds_popIf_bind {α : Type} {expected : Subject} {accepts : StackItem → Bool}
    {next : StackItem → StackOp α}
    (h : ∀ item, P item → Ensures (Holds P) (next item) fun _ stack => stack.Holds P) :
    Ensures (Holds P) (popIf expected accepts >>= next) fun _ stack => stack.Holds P :=
  .bind (holds_popIf expected accepts) fun item => .given (h item)

/-- Items that were taken are put back in some order, and a form is returned. -/
theorem holds_putBack {α : Type} {slots : UInt16} {items : List StackItem} {form : α}
    (hitems : ∀ item ∈ items, P item) :
    Ensures (Holds P)
      (do
        reserve slots
        pushAllReserved items
        return form)
      fun _ stack => stack.Holds P :=
  .bind (holds_reserve slots) fun _ =>
    .bind (holds_pushAllReserved items hitems) fun _ => .pure fun _ h => h

end OperandStack

open OperandStack in
theorem ShuffleOp.holds_run {P : StackItem → Prop} (op : ShuffleOp) :
    Ensures (Holds P) op.run fun _ stack => stack.Holds P := by
  cases op with
  | pop => exact holds_popIf_bind fun _ _ => .pure fun _ h => h
  | pop2 =>
      refine .bind (m := fun _ => Holds P) ?_ fun _ => .pure fun _ h => h
      refine holds_peek_bind fun top => ?_
      split
      · exact holds_popIf_bind fun _ _ => .pure fun _ h => h
      · exact holds_popIf_bind fun _ _ => holds_popIf_bind fun _ _ => .pure fun _ h => h
  | dup =>
      refine .bind (m := fun _ => Holds P) ?_ fun _ => .pure fun _ h => h
      exact holds_popIf_bind fun a ha => .bind (holds_reserve 2) fun _ =>
        holds_pushAllReserved _ (by simp [ha])
  | dupX1 =>
      refine .bind (m := fun _ => Holds P) ?_ fun _ => .pure fun _ h => h
      exact holds_popIf_bind fun a ha => holds_popIf_bind fun b hb =>
        .bind (holds_reserve 3) fun _ => holds_pushAllReserved _ (by simp [ha, hb])
  | dupX2 =>
      refine .bind (m := fun _ => Holds P) ?_ fun _ => .pure fun _ h => h
      refine holds_peek_bind fun top => ?_
      split
      · exact .throw_bind
      refine holds_peek_bind fun second => ?_
      split
      · exact holds_popIf_bind fun a ha => holds_popIf_bind fun b hb =>
          holds_putBack (by simp [ha, hb])
      · exact holds_popIf_bind fun a ha => holds_popIf_bind fun b hb => holds_popIf_bind fun c hc =>
          holds_putBack (by simp [ha, hb, hc])
  | dup2 =>
      refine .bind (m := fun _ => Holds P) ?_ fun _ => .pure fun _ h => h
      refine holds_peek_bind fun top => ?_
      split
      · exact holds_popIf_bind fun a ha => holds_putBack (by simp [ha])
      · exact holds_popIf_bind fun a ha => holds_popIf_bind fun b hb =>
          holds_putBack (by simp [ha, hb])
  | dup2X1 =>
      refine .bind (m := fun _ => Holds P) ?_ fun _ => .pure fun _ h => h
      refine holds_peek_bind fun top => ?_
      split
      · exact holds_popIf_bind fun a ha => holds_popIf_bind fun b hb =>
          holds_putBack (by simp [ha, hb])
      · exact holds_popIf_bind fun a ha => holds_popIf_bind fun b hb => holds_popIf_bind fun c hc =>
          holds_putBack (by simp [ha, hb, hc])
  | dup2X2 =>
      refine .bind (m := fun _ => Holds P) ?_ fun _ => .pure fun _ h => h
      refine holds_peek_bind fun top => ?_
      split
      · refine holds_peek_bind fun second => ?_
        split
        · exact holds_popIf_bind fun a ha => holds_popIf_bind fun b hb =>
            holds_putBack (by simp [ha, hb])
        · exact holds_popIf_bind fun a ha => holds_popIf_bind fun b hb =>
            holds_popIf_bind fun c hc => holds_putBack (by simp [ha, hb, hc])
      · refine holds_peek_bind fun second => ?_
        split
        · exact .throw_bind
        refine holds_peek_bind fun third => ?_
        split
        · exact holds_popIf_bind fun a ha => holds_popIf_bind fun b hb =>
            holds_popIf_bind fun c hc => holds_putBack (by simp [ha, hb, hc])
        · exact holds_popIf_bind fun a ha => holds_popIf_bind fun b hb =>
            holds_popIf_bind fun c hc => holds_popIf_bind fun d hd =>
              holds_putBack (by simp [ha, hb, hc, hd])
  | swap =>
      refine .bind (m := fun _ => Holds P) ?_ fun _ => .pure fun _ h => h
      exact holds_popIf_bind fun a ha => holds_popIf_bind fun b hb =>
        holds_pushAllReserved _ (by simp [ha, hb])

/-- An operation that leaves the local variables alone, and on the stack only items with a property. -/
def Quiet {α : Type} (P : StackItem → Prop) (op : MachineOp α) : Prop :=
  ∀ locals, Ensures (fun machine : Machine => machine.locals = locals ∧ machine.stack.Holds P) op
    fun _ machine => machine.locals = locals ∧ machine.stack.Holds P

namespace Quiet

variable {α β : Type} {P : StackItem → Prop}

theorem pure (a : α) : Quiet P (pure a) := fun _ => .pure fun _ h => h

theorem throw (fault : CodeFault) : Quiet P (throw fault : MachineOp α) := fun _ => .throw

theorem throw_bind (fault : CodeFault) (next : α → MachineOp β) :
    Quiet P (MonadExcept.throw fault >>= next) := fun _ => .throw_bind

theorem bind {first : MachineOp α} {next : α → MachineOp β} (hfirst : Quiet P first)
    (hnext : ∀ a, Quiet P (next a)) : Quiet P (first >>= next) :=
  fun locals => .bind (hfirst locals) fun a => hnext a locals

theorem get_bind {next : Machine → MachineOp α} (h : ∀ machine, Quiet P (next machine)) :
    Quiet P (get >>= next) := fun locals => .get_bind fun machine => h machine locals

theorem lift {op : StackOp α} (h : Ensures (OperandStack.Holds P) op fun _ stack => stack.Holds P) :
    Quiet P (MachineOp.onStack op) := by
  refine fun locals => .of_run fun machine a machine' hmachine hrun => ?_
  obtain ⟨stack, hstack, rfl⟩ := MachineOp.onStack_ok.mp hrun
  exact ⟨hmachine.1, h.returned hmachine.2 hstack⟩

theorem check (result : Except CodeFault α) : Quiet P (MachineOp.ofExcept result) := by
  refine fun locals => .of_run fun machine a machine' hmachine hrun => ?_
  obtain ⟨_, rfl⟩ := MachineOp.ofExcept_ok.mp hrun
  exact hmachine

theorem popIf (expected : Subject) (accepts : StackItem → Bool) :
    Quiet P (MachineOp.onStack (OperandStack.popIf expected accepts)) :=
  lift ((OperandStack.holds_popIf expected accepts).mono (fun _ h => h) fun _ _ h => h.2)

theorem popValue (c : Category) : Quiet P (MachineOp.onStack (OperandStack.popValue c)) := by
  cases c <;> exact popIf _ _

theorem push {item : StackItem} (h : P item) : Quiet P (MachineOp.onStack (OperandStack.push item)) :=
  lift (OperandStack.holds_push h)

theorem unchanged : Quiet P (MachineOp.onStack OperandStack.unchanged) := by
  refine lift (.of_run fun stack _ stack' hstack h => ?_)
  rw [OperandStack.unchanged, get_bind_run] at h
  split at h
  · cases h
  · cases h
    exact hstack

theorem discard {op : MachineOp α} (h : Quiet P op) : Quiet P (Functor.discard op) :=
  fun locals => .discard (h locals)

theorem popOf (type : FieldType) : Quiet P (MachineOp.onStack (Setting.popOf type)) :=
  lift <| .discard <|
    (OperandStack.holds_popValue type.category).mono (fun _ h => h) fun _ _ h => h.2

theorem popAllOf (types : List FieldType) :
    Quiet P (MachineOp.onStack (Setting.popAllOf types)) := by
  refine lift ?_
  induction types with
  | nil => exact .pure fun _ h => h
  | cons type rest ih =>
      refine .bind (m := fun _ stack => stack.Holds P) (.discard ?_) fun _ => ih
      exact (OperandStack.holds_popValue type.category).mono (fun _ h => h) fun _ _ h => h.2

theorem popCounts (n : Nat) : Quiet P (MachineOp.onStack (Setting.popCounts n)) := by
  refine lift ?_
  induction n with
  | zero => exact .pure fun _ h => h
  | succ n ih => exact OperandStack.holds_popIf_bind fun _ _ => ih

end Quiet

theorem NumericKind.category_ne (kind : NumericKind) : kind.category ≠ .returnAddress := by
  cases kind <;> decide

theorem StackItem.ofObject_category_ne (type : Option FieldType) (provenance : Provenance) :
    (StackItem.ofObject type provenance).category ≠ .returnAddress := by
  change Category.reference ≠ .returnAddress
  decide

theorem StackItem.ofField_category_ne (type : FieldType) (provenance : Provenance) :
    (StackItem.ofField type provenance).category ≠ .returnAddress := by
  unfold StackItem.ofField
  split
  · exact ofObject_category_ne _ _
  · split
    · exact ofObject_category_ne _ _
    · exact NumericKind.category_ne _

theorem Setting.item_category_ne (s : Setting) (origin : Origin) (kind : Option NumericKind)
    (type : Option FieldType) : (s.item origin kind type).category ≠ .returnAddress := by
  cases kind with
  | none => exact StackItem.ofObject_category_ne type _
  | some kind => exact NumericKind.category_ne kind

theorem Constant.item_category_ne (value : Constant) (provenance : Provenance) :
    (value.item provenance).category ≠ .returnAddress := by
  cases value with
  | null => exact StackItem.ofObject_category_ne none provenance
  | int _ => exact NumericKind.category_ne .int
  | long _ => exact NumericKind.category_ne .long
  | float _ => exact NumericKind.category_ne .float
  | double _ => exact NumericKind.category_ne .double

section Perform

variable {P : StackItem → Prop} (hP : ∀ item : StackItem, item.category ≠ .returnAddress → P item)
  (s : Setting)

include hP

theorem quiet_pushComputed (kind : NumericKind) : Quiet P (s.pushComputed kind) :=
  .push (hP _ (NumericKind.category_ne kind))

theorem quiet_pushReference (origin : Origin) (type : FieldType) :
    Quiet P (s.pushReference origin type) :=
  .push (hP _ (StackItem.ofObject_category_ne _ _))

theorem quiet_binary (kind result : NumericKind) : Quiet P (s.binary kind result) :=
  .bind (.popIf _ _) fun _ => .bind (.popIf _ _) fun _ => quiet_pushComputed hP s result

theorem quiet_unary (kind result : NumericKind) : Quiet P (s.unary kind result) :=
  .bind (.popIf _ _) fun _ => quiet_pushComputed hP s result

theorem quiet_shift (kind : NumericKind) : Quiet P (s.shift kind) :=
  .bind (.popIf _ _) fun _ => .bind (.popIf _ _) fun _ => quiet_pushComputed hP s kind

theorem quiet_load (kind : ValueKind) (index : UInt16) : Quiet P (s.load kind index) :=
  .get_bind fun _ => .bind (.check _) fun _ => .bind (.check _) fun _ =>
    .push (hP _ (Setting.item_category_ne s _ _ _))

theorem quiet_arrayLoad (kind : ElementKind) : Quiet P (s.arrayLoad kind) :=
  .bind (.popIf _ _) fun _ => .bind (.popIf _ _) fun _ => .bind (.check _) fun _ =>
    .push (hP _ (Setting.item_category_ne s _ _ _))

omit hP in
theorem quiet_arrayStore (kind : ElementKind) : Quiet P (Setting.arrayStore kind) :=
  .bind (.popValue _) fun _ => .bind (.popIf _ _) fun _ => .bind (.popIf _ _) fun _ =>
    .discard (.check _)

omit hP in
theorem quiet_increment (index : UInt16) : Quiet P (s.increment index) :=
  .get_bind fun _ => .bind (.check _) fun _ => .bind (.check _) fun _ => .unchanged

omit hP in
theorem quiet_returnValue (kind : Option ValueKind) : Quiet P (s.returnValue kind) := by
  unfold Setting.returnValue
  dsimp only
  split
  · exact .unchanged
  · split
    · exact .discard (.popValue _)
    · exact .throw _
  · exact .throw _

theorem quiet_invoke (kind : InvokeKind) (method : MethodRef) : Quiet P (s.invoke kind method) := by
  unfold Setting.invoke
  refine .bind (.popAllOf _) fun _ => ?_
  have hpush (type : FieldType) : Quiet P (MachineOp.onStack (OperandStack.push
      (.ofField type ⟨s.pc, .invocation⟩))) :=
    .push (hP _ (StackItem.ofField_category_ne _ _))
  dsimp only
  split
  · refine .bind (.discard (.popIf _ _)) fun _ => ?_
    split
    · exact .pure ()
    · exact hpush _
  · split
    · exact .pure ()
    · exact hpush _

theorem quiet_newReferenceArray (element : ClassName) : Quiet P (s.newReferenceArray element) := by
  unfold Setting.newReferenceArray
  split
  · exact .throw _
  · exact .bind (.popIf _ _) fun _ => quiet_pushReference hP s _ _

theorem quiet_arrayLength : Quiet P s.arrayLength := by
  unfold Setting.arrayLength
  refine .bind (.popIf _ _) fun array => ?_
  dsimp only
  split
  · split
    · exact .throw_bind _ _
    · exact quiet_pushComputed hP s _
  · exact quiet_pushComputed hP s _

/-- Performing an instruction other than a store leaves the local variables alone, and no more than a
call of a subroutine puts a return address on the stack. -/
theorem Instruction.perform_quiet (i : Instruction) (hstore : ∀ kind index, i ≠ .store kind index)
    (hcall : i.isSubroutineCall = true → P (.returnAddress s.next)) : Quiet P (i.perform s) := by
  cases i with
  | nop => exact .unchanged
  | constant value => exact .push (hP _ (Constant.item_category_ne _ _))
  | ldc value => exact .push (hP _ (StackItem.ofField_category_ne _ _))
  | load kind index => exact quiet_load hP s kind index
  | store kind index => exact absurd rfl (hstore kind index)
  | arrayLoad kind => exact quiet_arrayLoad hP s kind
  | arrayStore kind => exact quiet_arrayStore kind
  | shuffle form => exact .discard (.lift (ShuffleOp.holds_run form.op))
  | arithmetic _ kind _ => exact quiet_binary hP s kind kind
  | negate kind _ => exact quiet_unary hP s kind kind
  | shift _ kind => exact quiet_shift hP s kind
  | bitwise _ kind => exact quiet_binary hP s kind kind
  | increment index _ => exact quiet_increment s index
  | convert source target _ => exact quiet_unary hP s source target
  | truncate _ => exact quiet_unary hP s .int .int
  | longCompare => exact quiet_binary hP s .long .int
  | floatingCompare kind _ => exact quiet_binary hP s kind .int
  | ifZero _ _ => exact .popCounts 1
  | ifIntCompare _ _ => exact .popCounts 2
  | ifReferenceCompare _ _ =>
      exact .bind (.popIf _ _) fun _ => .bind (.popIf _ _) fun _ => .pure ()
  | ifNull _ _ => exact .discard (.popIf _ _)
  | goto _ => exact .unchanged
  | jsr _ => exact .push (hcall rfl)
  | ret index => exact .get_bind fun _ => .bind (.check _) fun _ => .unchanged
  | tableSwitch _ _ _ _ => exact .popCounts 1
  | lookupSwitch _ _ => exact .popCounts 1
  | returnValue kind => exact quiet_returnValue s kind
  | getStatic field => exact .push (hP _ (StackItem.ofField_category_ne _ _))
  | putStatic field => exact .popOf field.type
  | getField field =>
      exact .bind (.popIf _ _) fun _ => .push (hP _ (StackItem.ofField_category_ne _ _))
  | putField field => exact .bind (.popOf field.type) fun _ => .bind (.popIf _ _) fun _ => .pure ()
  | invoke kind method => exact quiet_invoke hP s kind method
  | newObject type => exact quiet_pushReference hP s _ _
  | newArray element => exact .bind (.popIf _ _) fun _ => quiet_pushReference hP s _ _
  | newReferenceArray element => exact quiet_newReferenceArray hP s element
  | arrayLength => exact quiet_arrayLength hP s
  | athrow => exact .discard (.popIf _ _)
  | checkCast type => exact .bind (.popIf _ _) fun _ => quiet_pushReference hP s _ _
  | instanceOf _ => exact .bind (.popIf _ _) fun _ => quiet_pushComputed hP s _
  | monitorEnter => exact .discard (.popIf _ _)
  | monitorExit => exact .discard (.popIf _ _)
  | newMultiArray type dimensions => exact .bind (.popCounts _) fun _ => quiet_pushReference hP s _ _

end Perform

theorem OperandStack.returnAddress_notMem_shape {stack : OperandStack} :
    .returnAddress ∉ stack.shape ↔ stack.Holds fun item => item.category ≠ .returnAddress := by
  simp [shape, shapeOf, Holds]

theorem Setting.popStored_ok {kind : ValueKind} {stack stack' : OperandStack} {item : StackItem}
    (h : Setting.popStored kind stack = .ok item stack') :
    stack.items = item :: stack'.items ∧
      (item.category = kind.category ∨ item.category = .returnAddress) := by
  have numeric : ∀ c : Category, OperandStack.popNumeric c stack = .ok item stack' →
      stack.items = item :: stack'.items ∧ item.category = c := by
    intro c hpop
    obtain ⟨haccepts, hitems⟩ := OperandStack.popIf_ok hpop
    refine ⟨hitems, ?_⟩
    cases item with
    | numeric found _ => exact of_decide_eq_true haccepts
    | reference _ _ => cases haccepts
    | returnAddress _ => cases haccepts
  cases kind with
  | int => exact (numeric _ h).imp_right .inl
  | long => exact (numeric _ h).imp_right .inl
  | float => exact (numeric _ h).imp_right .inl
  | double => exact (numeric _ h).imp_right .inl
  | reference =>
      obtain ⟨haccepts, hitems⟩ := OperandStack.popIf_ok h
      refine ⟨hitems, ?_⟩
      cases item with
      | numeric _ _ => cases haccepts
      | reference _ _ => exact .inl rfl
      | returnAddress _ => exact .inr rfl

theorem Setting.store_ok {s : Setting} {kind : ValueKind} {index : UInt16} {machine machine' : Machine}
    (h : s.store kind index machine = .ok () machine') :
    ∃ item, machine.stack.items = item :: machine'.stack.items ∧
      (item.category = kind.category ∨ item.category = .returnAddress) ∧
      machine.locals.store index item.category = .ok machine'.locals := by
  unfold Setting.store at h
  obtain ⟨item, popped, hlift, hrest⟩ := bind_run.mp h
  obtain ⟨stack, hpop, rfl⟩ := MachineOp.onStack_ok.mp hlift
  rw [get_bind_run] at hrest
  obtain ⟨locals, _, hstore, hrest⟩ := bind_run.mp hrest
  obtain ⟨hlocals, rfl⟩ := MachineOp.ofExcept_ok.mp hstore
  obtain ⟨_, stored, hmodify, hcheck⟩ := bind_run.mp hrest
  cases hmodify
  obtain ⟨hitems, hcategory⟩ := Setting.popStored_ok hpop
  have hsame : machine' = ⟨stack, locals⟩ := by
    by_cases haddress : item.category ≠ .returnAddress
    · rw [if_pos haddress] at hcheck
      exact (MachineOp.ofExcept_ok.mp hcheck).2
    · rw [if_neg haddress] at hcheck
      cases hcheck
      rfl
  subst hsame
  exact ⟨item, hitems, hcategory, hlocals⟩

/-- What an instruction that was performed did to the local variables, and that return addresses come from
calls of subroutines only. -/
structure Performed (i : Instruction) (before after : Machine) : Prop where
  read : ∀ range, i.localRead? = some range →
    before.locals.load range.index range.category = .ok ()
  quiet : (∀ kind index, i ≠ .store kind index) → after.locals = before.locals
  stored : ∀ kind index, i = .store kind index → ∃ c,
    before.locals.store index c = .ok after.locals ∧
      (c = kind.category ∨ c = .returnAddress ∧ .returnAddress ∈ before.stack.shape)
  addresses : i.isSubroutineCall = false → .returnAddress ∉ before.stack.shape →
    .returnAddress ∉ after.stack.shape

theorem Instruction.perform_read {s : Setting} {i : Instruction} {machine machine' : Machine}
    (h : i.perform s machine = .ok () machine') (range : SlotRange)
    (hread : i.localRead? = some range) :
    machine.locals.load range.index range.category = .ok () := by
  cases i with
  | load kind index =>
      cases hread
      change s.load kind index machine = _ at h
      rw [Setting.load, get_bind_run] at h
      obtain ⟨_, _, hload, _⟩ := bind_run.mp h
      exact (MachineOp.ofExcept_ok.mp hload).1
  | increment index delta =>
      cases hread
      change s.increment index machine = _ at h
      rw [Setting.increment, get_bind_run] at h
      obtain ⟨_, _, hload, _⟩ := bind_run.mp h
      exact (MachineOp.ofExcept_ok.mp hload).1
  | ret index =>
      cases hread
      rw [Instruction.perform, get_bind_run] at h
      obtain ⟨_, _, hload, _⟩ := bind_run.mp h
      exact (MachineOp.ofExcept_ok.mp hload).1
  | _ => cases hread

theorem Instruction.performed {s : Setting} {i : Instruction} {machine machine' : Machine}
    (h : i.perform s machine = .ok () machine') : Performed i machine machine' := by
  refine ⟨fun range hread => i.perform_read h range hread, ?_, ?_, ?_⟩
  · intro hstore
    have hquiet := i.perform_quiet (P := fun _ => True) (fun _ _ => trivial) s hstore fun _ => trivial
    exact ((hquiet _).returned ⟨rfl, fun _ _ => trivial⟩ h).1
  · rintro kind index rfl
    obtain ⟨item, hitems, hcategory, hlocals⟩ := Setting.store_ok h
    refine ⟨item.category, hlocals, hcategory.imp_right fun haddress => ⟨haddress, ?_⟩⟩
    rw [OperandStack.shape, shapeOf, hitems, List.map_cons, List.reverse_cons, haddress]
    exact List.mem_append_right _ (List.mem_singleton_self _)
  · intro hcall hbefore
    rw [OperandStack.returnAddress_notMem_shape] at hbefore ⊢
    have quiet (hstore : ∀ kind index, i ≠ .store kind index) :
        machine'.stack.Holds fun item => item.category ≠ .returnAddress := by
      have hquiet := i.perform_quiet (fun _ h => h) s hstore fun h => by rw [hcall] at h; cases h
      exact ((hquiet _).returned ⟨rfl, hbefore⟩ h).2
    cases i with
    | store kind index =>
        obtain ⟨item, hitems, _, _⟩ := Setting.store_ok h
        intro other hother
        exact hbefore other (hitems ▸ List.mem_cons_of_mem _ hother)
    | _ =>
        refine quiet ?_
        rintro _ _ ⟨⟩

theorem Operation.performed {s : Setting} {op : Operation} {i : Instruction}
    {machine machine' : Machine} (h : op.perform s machine = .ok i machine') :
    Performed i machine machine' := by
  cases op with
  | instruction i' =>
      obtain ⟨_, _, hperform, hpure⟩ := bind_run.mp h
      cases hpure
      exact Instruction.performed hperform
  | shuffle op =>
      obtain ⟨form, _, hlift, hpure⟩ := bind_run.mp h
      cases hpure
      obtain ⟨stack, hrun, rfl⟩ := MachineOp.onStack_ok.mp hlift
      refine ⟨?_, fun _ => rfl, ?_, ?_⟩
      · rintro _ ⟨⟩
      · rintro _ _ ⟨⟩
      intro _ hbefore
      rw [OperandStack.returnAddress_notMem_shape] at hbefore ⊢
      exact op.holds_run.returned hbefore hrun

end ClassFile
