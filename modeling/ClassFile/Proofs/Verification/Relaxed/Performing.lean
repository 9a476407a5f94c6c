import ClassFile.Proofs.Verification.Relaxed.Locals
import ClassFile.Proofs.Verification.Relaxed.Stack
import ClassFile.Verification.Machine

/-! Instructions on a machine of which less is known. A type that a variable is said to have is only ever
used to refuse an instruction or to be pushed with a reference, so that an instruction that is performed
with the types of variables is performed without them too, and with more room as well. -/

namespace ClassFile

/-- A machine of which less is known, and which may have more room. -/
structure Machine.Relaxed (few many : UInt16) (machine relaxed : Machine) : Prop where
  stack : machine.stack.Relaxed relaxed.stack
  locals : machine.locals.Relaxed few many relaxed.locals

/-- The same place of a method, where the local variables may not be known. -/
structure Setting.Relaxed (s relaxed : Setting) : Prop where
  method : relaxed.method = s.method
  localVariables : relaxed.localVariables = s.localVariables ∨ relaxed.localVariables = []
  pc : relaxed.pc = s.pc
  next : relaxed.next = s.next

/-- What an operation does to a machine, another one does to every relaxed machine. -/
abbrev MachineOp.FollowsRelaxed (few many : UInt16) {α : Type} (same : α → α → Prop) :
    MachineOp α → MachineOp α → Prop :=
  Follows (Machine.Relaxed few many) same

variable {few many : UInt16} {α : Type} {same : α → α → Prop}

namespace MachineOp

theorem follows_onStack {op op' : StackOp α} (h : OperandStack.FollowsRelaxed same op op') :
    FollowsRelaxed few many same (onStack op) (onStack op') := by
  intro s t hst a s' hrun
  unfold onStack at hrun ⊢
  cases hop : op s.stack with
  | error fault stack =>
      rw [hop] at hrun
      cases hrun
  | ok b stack =>
      rw [hop] at hrun
      cases hrun
      obtain ⟨b', stack', hop', hsame, hstack⟩ := h s.stack t.stack hst.stack a stack hop
      exact ⟨b', ⟨stack', t.locals⟩, by rw [hop'], hsame, hstack, hst.locals⟩

theorem follows_ofExcept {result result' : Except CodeFault α} (h : Entails same result result') :
    FollowsRelaxed few many same (ofExcept result) (ofExcept result') := by
  cases result with
  | error fault => exact .throw
  | ok a =>
      obtain ⟨b, hb, hsame⟩ := h a rfl
      rw [hb]
      exact .pure hsame

theorem follows_setLocals {locals locals' : Locals} (h : locals.Relaxed few many locals') :
    FollowsRelaxed few many Eq (modify fun machine => { machine with locals })
      (modify fun machine => { machine with locals := locals' }) := by
  rintro s t hst _ _ ⟨⟩
  exact ⟨(), _, rfl, rfl, hst.stack, h⟩

theorem follows_push {a b : StackItem} (h : StackItem.Relaxed a b) :
    FollowsRelaxed few many Eq (onStack (OperandStack.push a)) (onStack (OperandStack.push b)) :=
  follows_onStack (OperandStack.follows_push h)

theorem follows_popNumeric (c : Category) :
    FollowsRelaxed few many StackItem.Relaxed (onStack (OperandStack.popNumeric c))
      (onStack (OperandStack.popNumeric c)) :=
  follows_onStack (OperandStack.follows_popNumeric c)

theorem follows_popReference :
    FollowsRelaxed few many StackItem.Relaxed (onStack OperandStack.popReference)
      (onStack OperandStack.popReference) :=
  follows_onStack OperandStack.follows_popReference

theorem follows_unchanged :
    FollowsRelaxed few many Eq (onStack OperandStack.unchanged) (onStack OperandStack.unchanged) :=
  follows_onStack OperandStack.follows_unchanged

/-- Actions that return nothing return the same. -/
theorem follows_discard {op op' : MachineOp α} (h : FollowsRelaxed few many same op op') :
    FollowsRelaxed few many Eq (discard op) (discard op') :=
  h.discard.mono fun _ _ _ => rfl

end MachineOp

open MachineOp

/-- A check against the local variables is also passed if they are not known. -/
theorem entails_checkBinding {bindings known : List LocalVariable} (h : known = bindings ∨ known = [])
    (pc index : UInt16) (c : Category) :
    Entails (fun _ _ => True) (checkBinding bindings pc index c) (checkBinding known pc index c) := by
  rcases h with rfl | rfl
  · exact .of_eq fun _ => trivial
  · exact fun _ _ => ⟨(), rfl, trivial⟩

namespace Setting

variable {s t : Setting}

theorem Relaxed.boundType? (h : Relaxed s t) (index : UInt16) :
    t.boundType? index = none ∨ t.boundType? index = s.boundType? index := by
  unfold Setting.boundType?
  rcases h.localVariables with hsame | hnone
  · exact .inr (by rw [hsame, h.pc])
  · exact .inl (by rw [hnone, List.findSome?_nil])

theorem relaxed_item (s t : Setting) (origin : Origin) (kind : Option NumericKind)
    {type known : Option FieldType} (htype : known = none ∨ known = type) :
    StackItem.Relaxed (s.item origin kind type) (t.item origin kind known) := by
  cases kind with
  | some kind => exact .numeric kind _ _
  | none => exact .ofObject htype _ _

theorem follows_load (h : Relaxed s t) (kind : ValueKind) (index : UInt16) :
    FollowsRelaxed few many Eq (s.load kind index) (t.load kind index) := by
  refine .get_bind fun machine machine' hmachine => ?_
  refine .bind (follows_ofExcept (hmachine.locals.load index _)) fun _ _ _ => ?_
  rw [h.pc]
  refine .bind (follows_ofExcept (entails_checkBinding h.localVariables _ _ _)) fun _ _ _ => ?_
  exact follows_push (relaxed_item s t _ _ (h.boundType? index))

theorem follows_popStored (kind : ValueKind) :
    OperandStack.FollowsRelaxed StackItem.Relaxed (popStored kind) (popStored kind) := by
  cases kind with
  | reference => exact OperandStack.follows_popIf fun _ _ hab => by cases hab <;> rfl
  | _ => exact OperandStack.follows_popNumeric _

theorem follows_store (h : Relaxed s t) (kind : ValueKind) (index : UInt16) :
    FollowsRelaxed few many Eq (s.store kind index) (t.store kind index) := by
  refine .bind (follows_onStack (follows_popStored kind)) fun a b hab => ?_
  refine .get_bind fun machine machine' hmachine => ?_
  rw [hab.category, h.next]
  refine .bind (follows_ofExcept (hmachine.locals.store index _)) fun locals locals' hlocals => ?_
  refine .bind (follows_setLocals hlocals) fun _ _ _ => ?_
  split
  · exact (follows_ofExcept (entails_checkBinding h.localVariables _ _ _)).mono fun _ _ _ => rfl
  · exact .pure rfl

/-- The type of an element is not known if that of the array is not. -/
theorem entails_elementType (kind : ElementKind) {array array' : StackItem}
    (h : StackItem.Relaxed array array') :
    Entails (fun element known => known = none ∨ known = element) (elementType kind array)
      (elementType kind array') := by
  cases h with
  | numeric _ _ _ => exact .of_eq fun _ => .inr rfl
  | returnAddress _ => exact .of_eq fun _ => .inr rfl
  | reference _ _ hknown =>
      rcases hknown with rfl | rfl
      · exact fun _ _ => ⟨none, rfl, .inl rfl⟩
      · rename_i type
        cases type with
        | none => exact .ok (.inr rfl)
        | some type =>
            unfold elementType
            dsimp only
            split
            · split
              · exact .ok (.inr rfl)
              · exact .error
            · exact .error

theorem follows_arrayLoad (s t : Setting) (kind : ElementKind) :
    FollowsRelaxed few many Eq (s.arrayLoad kind) (t.arrayLoad kind) :=
  .bind (follows_popNumeric .int) fun _ _ _ => .bind follows_popReference fun _ _ harray =>
    .bind (follows_ofExcept (entails_elementType kind harray)) fun _ _ helement =>
      follows_push (relaxed_item s t _ _ helement)

theorem follows_arrayStore (kind : ElementKind) :
    FollowsRelaxed few many Eq (arrayStore kind) (arrayStore kind) :=
  .bind (follows_onStack (OperandStack.follows_popValue _)) fun _ _ _ =>
    .bind (follows_popNumeric .int) fun _ _ _ => .bind follows_popReference fun _ _ harray =>
      follows_discard (follows_ofExcept (entails_elementType kind harray))

theorem follows_pushComputed (h : Relaxed s t) (kind : NumericKind) :
    FollowsRelaxed few many Eq (s.pushComputed kind) (t.pushComputed kind) :=
  follows_push (h.pc ▸ .refl _)

theorem follows_pushReference (h : Relaxed s t) (origin : Origin) (type : FieldType) :
    FollowsRelaxed few many Eq (s.pushReference origin type) (t.pushReference origin type) :=
  follows_push (h.pc ▸ .refl _)

theorem follows_binary (h : Relaxed s t) (kind result : NumericKind) :
    FollowsRelaxed few many Eq (s.binary kind result) (t.binary kind result) :=
  .bind (follows_popNumeric _) fun _ _ _ => .bind (follows_popNumeric _) fun _ _ _ =>
    follows_pushComputed h result

theorem follows_unary (h : Relaxed s t) (kind result : NumericKind) :
    FollowsRelaxed few many Eq (s.unary kind result) (t.unary kind result) :=
  .bind (follows_popNumeric _) fun _ _ _ => follows_pushComputed h result

theorem follows_shift (h : Relaxed s t) (kind : NumericKind) :
    FollowsRelaxed few many Eq (s.shift kind) (t.shift kind) :=
  .bind (follows_popNumeric .int) fun _ _ _ => .bind (follows_popNumeric _) fun _ _ _ =>
    follows_pushComputed h kind

theorem follows_increment (h : Relaxed s t) (index : UInt16) :
    FollowsRelaxed few many Eq (s.increment index) (t.increment index) := by
  refine .get_bind fun machine machine' hmachine => ?_
  refine .bind (follows_ofExcept (hmachine.locals.load index _)) fun _ _ _ => ?_
  rw [h.pc]
  exact .bind (follows_ofExcept (entails_checkBinding h.localVariables _ _ _)) fun _ _ _ =>
    follows_unchanged

theorem follows_returnValue (h : Relaxed s t) (kind : Option ValueKind) :
    FollowsRelaxed few many Eq (s.returnValue kind) (t.returnValue kind) := by
  unfold returnValue
  rw [h.method]
  dsimp only
  split
  · exact follows_unchanged
  · split
    · exact follows_discard (follows_onStack (OperandStack.follows_popValue _))
    · exact .throw
  · exact .throw

theorem follows_popOf (type : FieldType) : OperandStack.FollowsRelaxed Eq (popOf type) (popOf type) :=
  (OperandStack.follows_popValue type.category).discard.mono fun _ _ _ => rfl

theorem follows_popAllOf (types : List FieldType) :
    OperandStack.FollowsRelaxed Eq (popAllOf types) (popAllOf types) := by
  induction types with
  | nil => exact .pure rfl
  | cons type rest ih => exact .bind (follows_popOf type) fun _ _ _ => ih

theorem follows_popCounts (count : Nat) :
    OperandStack.FollowsRelaxed Eq (popCounts count) (popCounts count) := by
  induction count with
  | zero => exact .pure rfl
  | succ count ih => exact .bind (OperandStack.follows_popNumeric .int) fun _ _ _ => ih

theorem follows_invoke (h : Relaxed s t) (kind : InvokeKind) (method : MethodRef) :
    FollowsRelaxed few many Eq (s.invoke kind method) (t.invoke kind method) := by
  have hreturned : ∀ {returned returned' : MachineOp Unit}, FollowsRelaxed few many Eq returned returned' →
      FollowsRelaxed few many Eq
        (do
          popAllOf method.descriptor.parameters.reverse
          if kind ≠ .static then discard OperandStack.popReference
          returned)
        (do
          popAllOf method.descriptor.parameters.reverse
          if kind ≠ .static then discard OperandStack.popReference
          returned') := by
    intro returned returned' hreturned
    refine .bind (follows_onStack (follows_popAllOf _)) fun _ _ _ => ?_
    split
    · exact .bind (follows_discard follows_popReference) fun _ _ _ => hreturned
    · exact hreturned
  unfold invoke
  rw [h.pc]
  cases method.descriptor.returnType with
  | void => exact hreturned (.pure rfl)
  | value type => exact hreturned (follows_push (.refl _))

theorem follows_newReferenceArray (h : Relaxed s t) (element : ClassName) :
    FollowsRelaxed few many Eq (s.newReferenceArray element) (t.newReferenceArray element) := by
  unfold newReferenceArray
  split
  · exact .throw
  · exact .bind (follows_popNumeric .int) fun _ _ _ => follows_pushReference h _ _

/-- The length of something whose type is not known is taken as that of an array is. -/
theorem follows_arrayLength (h : Relaxed s t) :
    FollowsRelaxed few many Eq s.arrayLength t.arrayLength := by
  refine .bind follows_popReference fun array array' harray => ?_
  cases harray with
  | numeric _ _ _ => exact follows_pushComputed h .int
  | returnAddress _ => exact follows_pushComputed h .int
  | @reference _ _ type known hknown =>
      cases type with
      | none =>
          obtain rfl : known = none := by simpa using hknown
          exact follows_pushComputed h .int
      | some type =>
          dsimp only
          split
          · exact .throw_bind
          · rcases hknown with rfl | rfl
            · exact follows_pushComputed h .int
            · rename_i harray
              dsimp only
              rw [if_neg harray]
              exact follows_pushComputed h .int

end Setting

section Perform

variable {s t : Setting}

/-- Every instruction does to a relaxed machine what it does to a machine. -/
theorem Instruction.follows_perform (h : s.Relaxed t) (i : Instruction) :
    FollowsRelaxed few many Eq (i.perform s) (i.perform t) := by
  cases i with
  | nop => exact follows_unchanged
  | constant value => exact follows_push (h.pc ▸ .refl _)
  | ldc value => exact follows_push (h.pc ▸ .refl _)
  | load kind index => exact Setting.follows_load h kind index
  | store kind index => exact Setting.follows_store h kind index
  | arrayLoad kind => exact Setting.follows_arrayLoad s t kind
  | arrayStore kind => exact Setting.follows_arrayStore kind
  | shuffle form => exact follows_discard (follows_onStack form.op.follows_run)
  | arithmetic _ kind _ => exact Setting.follows_binary h kind kind
  | negate kind _ => exact Setting.follows_unary h kind kind
  | shift _ kind => exact Setting.follows_shift h kind
  | bitwise _ kind => exact Setting.follows_binary h kind kind
  | increment index _ => exact Setting.follows_increment h index
  | convert source target _ => exact Setting.follows_unary h source target
  | truncate _ => exact Setting.follows_unary h .int .int
  | longCompare => exact Setting.follows_binary h .long .int
  | floatingCompare kind _ => exact Setting.follows_binary h kind .int
  | ifZero _ _ => exact follows_onStack (Setting.follows_popCounts 1)
  | ifIntCompare _ _ => exact follows_onStack (Setting.follows_popCounts 2)
  | ifReferenceCompare _ _ =>
      exact .bind follows_popReference fun _ _ _ => .bind follows_popReference fun _ _ _ => .pure rfl
  | ifNull _ _ => exact follows_discard follows_popReference
  | goto _ => exact follows_unchanged
  | jsr _ => exact follows_push (h.next ▸ .refl _)
  | ret index =>
      exact .get_bind fun _ _ hmachine =>
        .bind (follows_ofExcept (hmachine.locals.load index .returnAddress)) fun _ _ _ =>
          follows_unchanged
  | tableSwitch _ _ _ _ => exact follows_onStack (Setting.follows_popCounts 1)
  | lookupSwitch _ _ => exact follows_onStack (Setting.follows_popCounts 1)
  | returnValue kind => exact Setting.follows_returnValue h kind
  | getStatic field => exact follows_push (h.pc ▸ .refl _)
  | putStatic field => exact follows_onStack (Setting.follows_popOf field.type)
  | getField field => exact .bind follows_popReference fun _ _ _ => follows_push (h.pc ▸ .refl _)
  | putField field =>
      exact .bind (follows_onStack (Setting.follows_popOf field.type)) fun _ _ _ =>
        .bind follows_popReference fun _ _ _ => .pure rfl
  | invoke kind method => exact Setting.follows_invoke h kind method
  | newObject type => exact Setting.follows_pushReference h _ _
  | newArray element =>
      exact .bind (follows_popNumeric .int) fun _ _ _ => Setting.follows_pushReference h _ _
  | newReferenceArray element => exact Setting.follows_newReferenceArray h element
  | arrayLength => exact Setting.follows_arrayLength h
  | athrow => exact follows_discard follows_popReference
  | checkCast type => exact .bind follows_popReference fun _ _ _ => Setting.follows_pushReference h _ _
  | instanceOf _ => exact .bind follows_popReference fun _ _ _ => Setting.follows_pushComputed h .int
  | monitorEnter => exact follows_discard follows_popReference
  | monitorExit => exact follows_discard follows_popReference
  | newMultiArray type dimensions =>
      exact .bind (follows_onStack (Setting.follows_popCounts _)) fun _ _ _ =>
        Setting.follows_pushReference h _ _

theorem Operation.follows_perform (h : s.Relaxed t) (op : Operation) :
    FollowsRelaxed few many Eq (op.perform s) (op.perform t) := by
  cases op with
  | instruction i => exact .bind (i.follows_perform h) fun _ _ _ => .pure rfl
  | shuffle op => exact .bind (follows_onStack op.follows_run) fun _ _ hform => .pure (hform ▸ rfl)

end Perform

end ClassFile
