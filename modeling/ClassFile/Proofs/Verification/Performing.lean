import ClassFile.Proofs.Descriptor.Method
import ClassFile.Proofs.Verification.Exchange

/-! How many slots each instruction takes off the stack and puts on it. Instructions take first and put
afterwards. From a sound stack whose counters are zero, they do as this table says or fail with a fault of
the code. -/

namespace ClassFile

theorem slotCount_eq (types : List FieldType) :
    slotCount types = Category.slots (types.map FieldType.category) := by
  induction types with
  | nil => rfl
  | cons type rest ih =>
      rw [slotCount, ih, ← type.toNat_size]
      rfl

namespace Instruction

/-- The slots that an instruction takes. -/
def slotsTaken : Instruction → Nat
  | .nop | .constant _ | .ldc _ | .load _ _ | .increment _ _ | .goto _ | .jsr _ | .ret _
  | .getStatic _ | .newObject _ => 0
  | .store kind _ => kind.category.size.toNat
  | .arrayLoad _ | .ifIntCompare _ _ | .ifReferenceCompare _ _ => 2
  | .arrayStore kind => kind.category.size.toNat + 2
  | .shuffle form => form.op.slotsTaken
  | .arithmetic _ kind _ | .bitwise _ kind | .floatingCompare kind _ => 2 * kind.category.size.toNat
  | .negate kind _ | .convert kind _ _ => kind.category.size.toNat
  | .shift _ kind => kind.category.size.toNat + 1
  | .longCompare => 4
  | .truncate _ | .ifZero _ _ | .ifNull _ _ | .tableSwitch _ _ _ _ | .lookupSwitch _ _ | .getField _
  | .newArray _ | .newReferenceArray _ | .arrayLength | .athrow | .checkCast _ | .instanceOf _
  | .monitorEnter | .monitorExit => 1
  | .returnValue kind => ((kind.map ValueKind.category).map fun c => c.size.toNat).getD 0
  | .putStatic field => field.type.slotCount
  | .putField field => field.type.slotCount + 1
  | .invoke kind method => slotCount method.descriptor.parameters + if kind = .static then 0 else 1
  | .newMultiArray _ dimensions => dimensions.toNat

/-- The slots that an instruction puts on the stack. -/
def slotsPut : Instruction → Nat
  | .nop | .store _ _ | .arrayStore _ | .increment _ _ | .ifZero _ _ | .ifIntCompare _ _
  | .ifReferenceCompare _ _ | .ifNull _ _ | .goto _ | .ret _ | .tableSwitch _ _ _ _
  | .lookupSwitch _ _ | .returnValue _ | .putStatic _ | .putField _ | .athrow | .monitorEnter
  | .monitorExit => 0
  | .constant value => value.category.size.toNat
  | .ldc value => value.type.slotCount
  | .load kind _ => kind.category.size.toNat
  | .arrayLoad kind => kind.category.size.toNat
  | .shuffle form => form.op.slotsPut
  | .arithmetic _ kind _ | .negate kind _ | .shift _ kind | .bitwise _ kind | .convert _ kind _ =>
    kind.category.size.toNat
  | .truncate _ | .longCompare | .floatingCompare _ _ | .jsr _ | .newObject _ | .newArray _
  | .newReferenceArray _ | .arrayLength | .checkCast _ | .instanceOf _ | .newMultiArray _ _ => 1
  | .getStatic field | .getField field => field.type.slotCount
  | .invoke _ method =>
    match method.descriptor.returnType with
    | .void => 0
    | .value type => type.slotCount

end Instruction

namespace OperandStack

/-- Items that take a number of slots were taken off a stack, and none was put on it yet. -/
def Taken (start : OperandStack) (n : Nat) (now : OperandStack) : Prop :=
  ∃ cs, Exchanged start cs [] now ∧ Category.slots cs = n

variable {start now : OperandStack} {n : Nat}

theorem taken_start (h : start.Sound) : Taken start 0 start := ⟨[], .refl h, rfl⟩

theorem Taken.moved (h : Taken start n now) : Moved start n 0 now := by
  obtain ⟨cs, hnow, hn⟩ := h
  exact ⟨cs, [], hnow, hn, rfl⟩

theorem Taken.settled (h : Taken start n now) {fault : CodeFault} (hfault : fault.Foreseen) :
    Settled start fault now := by
  obtain ⟨cs, hnow, _⟩ := h
  exact ⟨hfault, cs, [], hnow⟩

theorem taken_popIf {expected : Subject} {accepts : StackItem → Bool} {size : Nat}
    (hsize : ∀ item, accepts item = true → item.category.size.toNat = size) :
    Yields (Taken start n) (popIf expected accepts) (fun _ => Taken start (n + size)) (Settled start) := by
  rintro now ⟨cs, hnow, rfl⟩
  refine (yields_popIf expected accepts).mono (fun _ h => h) ?_
    (fun _ _ h => h) now hnow
  rintro item after ⟨haccepts, hafter⟩
  refine ⟨_, hafter, ?_⟩
  rw [Category.slots_append, Category.slots_singleton, hsize item haccepts]

theorem taken_popNumeric (c : Category) :
    Yields (Taken start n) (popNumeric c) (fun _ => Taken start (n + c.size.toNat))
      (Settled start) := by
  refine taken_popIf fun item hitem => ?_
  cases item with
  | numeric kind _ =>
      have hkind : kind.category = c := of_decide_eq_true hitem
      rw [← hkind]
      rfl
  | reference _ _ => cases hitem
  | returnAddress _ => cases hitem

theorem taken_popReference :
    Yields (Taken start n) popReference (fun _ => Taken start (n + 1)) (Settled start) := by
  refine taken_popIf fun item hitem => ?_
  cases item with
  | numeric _ _ => cases hitem
  | reference _ _ => rfl
  | returnAddress _ => cases hitem

theorem taken_popReturnAddress :
    Yields (Taken start n) popReturnAddress (fun _ => Taken start (n + 1)) (Settled start) := by
  refine taken_popIf fun item hitem => ?_
  cases item with
  | numeric _ _ => cases hitem
  | reference _ _ => cases hitem
  | returnAddress _ => rfl

theorem taken_popValue (c : Category) :
    Yields (Taken start n) (popValue c) (fun _ => Taken start (n + c.size.toNat)) (Settled start) := by
  cases c with
  | reference => exact taken_popReference
  | returnAddress => exact taken_popReturnAddress
  | _ => exact taken_popNumeric _

theorem moves_push {item : StackItem} {m : Nat} (hm : item.category.size.toNat = m) :
    Yields (Taken start n) (push item) (fun _ => Moved start n m) (Settled start) := by
  rintro now ⟨cs, hnow, rfl⟩
  refine (yields_push item).mono (fun _ h => h) ?_
    (fun _ _ h => h) now hnow
  intro _ after hafter
  exact ⟨cs, _, hafter, rfl, by rw [List.nil_append, Category.slots_singleton, hm]⟩

/-- An instruction that leaves the stack alone finds its counters as they were reset. -/
theorem taken_unchanged (hpopped : start.popped = 0) (hpushed : start.pushed = 0) :
    Yields (Taken start 0) unchanged (fun _ => Taken start 0) (Settled start) := by
  refine .get_bind fun now hnow => ?_
  obtain ⟨cs, hexchanged, hcs⟩ := hnow
  have hzero : ¬ (now.popped ≠ 0 ∨ now.pushed ≠ 0) := by
    rw [hexchanged.popped, hexchanged.pushed, hpopped, hpushed, hcs]
    decide
  rw [if_neg hzero]
  exact .pure fun s hs => hs ▸ ⟨cs, hexchanged, hcs⟩

end OperandStack

namespace Setting

open OperandStack

variable {start : OperandStack} {n : Nat}

theorem taken_popOf (type : FieldType) :
    Yields (Taken start n) (popOf type) (fun _ => Taken start (n + type.slotCount)) (Settled start) := by
  rw [← type.toNat_size]
  exact .discard (taken_popValue type.category)

theorem taken_popAllOf (types : List FieldType) :
    Yields (Taken start n) (popAllOf types) (fun _ => Taken start (n + slotCount types))
      (Settled start) := by
  induction types generalizing n with
  | nil => exact .pure fun _ h => h
  | cons type rest ih =>
      have hsum : n + slotCount (type :: rest) = n + type.slotCount + slotCount rest := by
        rw [slotCount]
        omega
      rw [hsum]
      exact .bind (taken_popOf type) fun _ => ih

theorem taken_popCounts (count : Nat) :
    Yields (Taken start n) (popCounts count) (fun _ => Taken start (n + count)) (Settled start) := by
  induction count generalizing n with
  | zero => exact .pure fun _ h => h
  | succ count ih =>
      have hsum : n + (count + 1) = n + 1 + count := by omega
      rw [hsum]
      exact .bind (taken_popNumeric .int) fun _ => ih

theorem taken_popStored (kind : ValueKind) :
    Yields (Taken start n) (popStored kind) (fun _ => Taken start (n + kind.category.size.toNat))
      (Settled start) := by
  cases kind with
  | reference =>
      refine taken_popIf fun item hitem => ?_
      cases item with
      | numeric _ _ => cases hitem
      | reference _ _ => rfl
      | returnAddress _ => rfl
  | _ => exact taken_popNumeric _

end Setting

/-- From where a number of slots was taken, an operation goes on to where the stack has a property, or it
fails with a fault of the code. -/
def Trades {α : Type} (start : OperandStack) (n : Nat) (op : MachineOp α) (after : OperandStack → Prop) :
    Prop :=
  Yields (fun machine : Machine => start.Taken n machine.stack) op (fun _ machine => after machine.stack)
    fun fault machine => start.Settled fault machine.stack

namespace Trades

variable {α β : Type} {start : OperandStack} {n m k : Nat} {after : OperandStack → Prop}

theorem pure (a : α) (h : n = m) : Trades start n (pure a) (start.Moved m 0) :=
  Yields.pure fun _ hs => h ▸ hs.moved

theorem throw {fault : CodeFault} (h : fault.Foreseen) :
    Trades start n (throw fault : MachineOp α) after :=
  Yields.throw fun _ hs => hs.settled h

theorem bind {first : MachineOp α} {next : α → MachineOp β} (hfirst : Trades start n first (start.Taken k))
    (hnext : ∀ a, Trades start k (next a) after) : Trades start n (first >>= next) after :=
  Yields.bind hfirst hnext

theorem get_bind {next : Machine → MachineOp α} (h : ∀ machine, Trades start n (next machine) after) :
    Trades start n (get >>= next) after := fun machine hmachine => h machine machine hmachine

theorem discard {op : MachineOp α} (h : Trades start n op after) :
    Trades start n (Functor.discard op) after := Yields.discard h

theorem lift {op : StackOp α}
    (h : Yields (start.Taken n) op (fun _ => after) start.Settled) :
    Trades start n (MachineOp.onStack op) after := by
  intro machine hmachine
  have hop := h machine.stack hmachine
  unfold MachineOp.onStack
  cases hrun : op machine.stack with
  | ok a stack =>
      rw [hrun] at hop
      exact hop
  | error fault stack =>
      rw [hrun] at hop
      exact hop

theorem check {result : Except CodeFault α} (h : Foresees result) :
    Trades start n (MachineOp.ofExcept result) (start.Taken n) := by
  cases result with
  | ok a => exact Yields.pure fun _ hs => hs
  | error fault => exact throw (h fault rfl)

theorem done {op : MachineOp α} (h : Trades start n op (start.Taken k)) (hk : k = m) :
    Trades start n op (start.Moved m 0) :=
  h.mono (fun _ h => h) (fun _ _ h => hk ▸ h.moved) fun _ _ h => h

theorem push {item : StackItem} (hn : n = k) (hm : item.category.size.toNat = m) :
    Trades start n (MachineOp.onStack (OperandStack.push item)) (start.Moved k m) :=
  hn ▸ lift (OperandStack.moves_push hm)

theorem popNumeric (c : Category) :
    Trades start n (MachineOp.onStack (OperandStack.popNumeric c)) (start.Taken (n + c.size.toNat)) :=
  lift (OperandStack.taken_popNumeric c)

theorem popReference :
    Trades start n (MachineOp.onStack OperandStack.popReference) (start.Taken (n + 1)) :=
  lift OperandStack.taken_popReference

end Trades

theorem FieldType.toNat_size_category (type : FieldType) : type.category.size.toNat = type.slotCount :=
  type.toNat_size

theorem StackItem.category_ofField (type : FieldType) (provenance : Provenance) :
    (StackItem.ofField type provenance).category = type.category := by
  unfold StackItem.ofField FieldType.category
  split
  · rfl
  · cases type.base with
    | object name => rfl
    | primitive kind => exact NumericKind.category_ofPrimitive kind

theorem StackItem.slots_ofField (type : FieldType) (provenance : Provenance) :
    (StackItem.ofField type provenance).category.size.toNat = type.slotCount := by
  rw [category_ofField, type.toNat_size_category]

theorem Constant.category_item (value : Constant) (provenance : Provenance) :
    (value.item provenance).category = value.category := by
  cases value <;> rfl

section Perform

variable {start : OperandStack} {n : Nat} (s : Setting)

theorem trades_pushComputed (kind : NumericKind) :
    Trades start n (s.pushComputed kind) (start.Moved n kind.category.size.toNat) :=
  .push rfl rfl

theorem trades_pushReference (origin : Origin) (type : FieldType) :
    Trades start n (s.pushReference origin type) (start.Moved n 1) :=
  .push rfl rfl

theorem trades_load (kind : ValueKind) (index : UInt16) :
    Trades start 0 (s.load kind index) (start.Moved 0 kind.category.size.toNat) := by
  refine .get_bind fun _ => .bind (.check (Locals.foresees_load _ _ _)) fun _ => ?_
  refine .bind (.check (foresees_checkBinding _ _ _ _)) fun _ => .push rfl ?_
  cases kind <;> rfl

theorem trades_store (kind : ValueKind) (index : UInt16) :
    Trades start 0 (s.store kind index) (start.Moved kind.category.size.toNat 0) := by
  refine .bind (k := kind.category.size.toNat) (.lift ?_) fun stored => ?_
  · rw [← Nat.zero_add kind.category.size.toNat]
    exact Setting.taken_popStored kind
  refine .get_bind fun machine => .bind (.check (Locals.foresees_store _ _ _)) fun locals => ?_
  refine .bind (k := kind.category.size.toNat) (fun _ h => h) fun _ => ?_
  split
  · exact .done (.check (foresees_checkBinding _ _ _ _)) rfl
  · exact .pure () rfl

theorem trades_arrayLoad (kind : ElementKind) :
    Trades start 0 (s.arrayLoad kind) (start.Moved 2 kind.category.size.toNat) := by
  refine .bind (.popNumeric .int) fun _ => .bind .popReference fun array => ?_
  refine .bind (.check (Setting.foresees_elementType kind array)) fun element => .push rfl ?_
  cases kind <;> rfl

theorem trades_arrayStore (kind : ElementKind) :
    Trades start 0 (Setting.arrayStore kind) (start.Moved (kind.category.size.toNat + 2) 0) := by
  refine .bind (.lift (OperandStack.taken_popValue kind.category)) fun _ => ?_
  refine .bind (.popNumeric .int) fun _ => .bind .popReference fun array => ?_
  refine .discard (.done (.check (Setting.foresees_elementType kind array)) ?_)
  change 0 + kind.category.size.toNat + 1 + 1 = _
  omega

theorem trades_binary (kind result : NumericKind) :
    Trades start 0 (s.binary kind result)
      (start.Moved (2 * kind.category.size.toNat) result.category.size.toNat) :=
  .bind (.popNumeric _) fun _ => .bind (.popNumeric _) fun _ => .push (by omega) rfl

theorem trades_unary (kind result : NumericKind) :
    Trades start 0 (s.unary kind result)
      (start.Moved kind.category.size.toNat result.category.size.toNat) :=
  .bind (.popNumeric _) fun _ => .push (Nat.zero_add _) rfl

theorem trades_shift (kind : NumericKind) :
    Trades start 0 (s.shift kind)
      (start.Moved (kind.category.size.toNat + 1) kind.category.size.toNat) :=
  .bind (.popNumeric .int) fun _ => .bind (.popNumeric _) fun _ => .push (Nat.add_comm _ _) rfl

theorem trades_unchanged (hpopped : start.popped = 0) (hpushed : start.pushed = 0) :
    Trades start 0 (MachineOp.onStack OperandStack.unchanged) (start.Moved 0 0) :=
  .done (.lift (OperandStack.taken_unchanged hpopped hpushed)) rfl

theorem trades_returnValue (hpopped : start.popped = 0) (hpushed : start.pushed = 0)
    (kind : Option ValueKind) :
    Trades start 0 (s.returnValue kind) (start.Moved (Instruction.returnValue kind).slotsTaken 0) := by
  unfold Setting.returnValue Instruction.slotsTaken
  dsimp only
  cases hgiven : kind.map ValueKind.category with
  | none =>
      cases s.method.descriptor.returnType.category? with
      | none => exact trades_unchanged hpopped hpushed
      | some wanted => exact .throw ⟨nofun, nofun⟩
  | some given =>
      cases s.method.descriptor.returnType.category? with
      | none => exact .throw ⟨nofun, nofun⟩
      | some wanted =>
          dsimp only
          split
          · rename_i hsame
            subst hsame
            exact .discard (.done (.lift (OperandStack.taken_popValue given)) (Nat.zero_add _))
          · exact .throw ⟨nofun, nofun⟩

theorem trades_invoke (kind : InvokeKind) (method : MethodRef) :
    Trades start 0 (s.invoke kind method)
      (start.Moved (Instruction.invoke kind method).slotsTaken
        (Instruction.invoke kind method).slotsPut) := by
  have pushResult (k m : Nat) (hk : k = m) : Trades start k
      (match method.descriptor.returnType with
      | .void => (pure () : MachineOp Unit)
      | .value type => OperandStack.push (.ofField type ⟨s.pc, .invocation⟩))
      (start.Moved m (Instruction.invoke kind method).slotsPut) := by
    unfold Instruction.slotsPut
    dsimp only
    split
    · exact .pure () hk
    · exact .push hk (StackItem.slots_ofField _ _)
  have harguments : 0 + slotCount method.descriptor.parameters.reverse =
      slotCount method.descriptor.parameters := by
    rw [slotCount_eq, List.map_reverse, Category.slots_reverse, ← slotCount_eq, Nat.zero_add]
  refine .bind (.lift (Setting.taken_popAllOf _)) fun _ => ?_
  rw [harguments]
  dsimp only
  split
  · rename_i hreceiver
    refine .bind (.discard .popReference) fun _ => pushResult _ _ ?_
    rw [Instruction.slotsTaken, if_neg hreceiver]
  · rename_i hstatic
    refine pushResult _ _ ?_
    rw [Instruction.slotsTaken, if_pos (Decidable.not_not.mp hstatic), Nat.add_zero]

theorem trades_newReferenceArray (element : ClassName) :
    Trades start 0 (s.newReferenceArray element) (start.Moved 1 1) := by
  unfold Setting.newReferenceArray
  split
  · exact .throw ⟨nofun, nofun⟩
  · exact .bind (.popNumeric .int) fun _ => trades_pushReference s _ _

theorem trades_arrayLength : Trades start 0 s.arrayLength (start.Moved 1 1) := by
  refine .bind .popReference fun array => ?_
  dsimp only
  split
  · split
    · exact Yields.throw_bind fun _ hs => hs.settled ⟨nofun, nofun⟩
    · exact trades_pushComputed s .int
  · exact trades_pushComputed s .int

theorem trades_popCounts (count : Nat) :
    Trades start 0 (MachineOp.onStack (Setting.popCounts count)) (start.Moved count 0) :=
  .done (.lift (Setting.taken_popCounts count)) (Nat.zero_add count)

theorem trades_shuffle (hstart : start.Sound) (op : ShuffleOp) :
    Trades start 0 (MachineOp.onStack op.run) (start.Moved op.slotsTaken op.slotsPut) := by
  refine .lift ?_
  rintro now ⟨cs, hnow, hcs⟩
  obtain rfl := Category.eq_nil_of_slots hcs
  exact op.moves_run hstart now hnow

/-- Every instruction takes and puts the slots of the table. -/
theorem Instruction.trades_perform (hstart : start.Sound) (hpopped : start.popped = 0)
    (hpushed : start.pushed = 0) (i : Instruction) :
    Trades start 0 (i.perform s) (start.Moved i.slotsTaken i.slotsPut) := by
  cases i with
  | nop => exact trades_unchanged hpopped hpushed
  | constant value => exact .push rfl (by rw [value.category_item]; rfl)
  | ldc value => exact .push rfl (StackItem.slots_ofField _ _)
  | load kind index => exact trades_load s kind index
  | store kind index => exact trades_store s kind index
  | arrayLoad kind => exact trades_arrayLoad s kind
  | arrayStore kind => exact trades_arrayStore kind
  | shuffle form => exact .discard (trades_shuffle hstart form.op)
  | arithmetic _ kind _ => exact trades_binary s kind kind
  | negate kind _ => exact trades_unary s kind kind
  | shift _ kind => exact trades_shift s kind
  | bitwise _ kind => exact trades_binary s kind kind
  | increment index _ =>
      exact .get_bind fun _ => .bind (.check (Locals.foresees_load _ _ _)) fun _ =>
        .bind (.check (foresees_checkBinding _ _ _ _)) fun _ => trades_unchanged hpopped hpushed
  | convert source target _ => exact trades_unary s source target
  | truncate _ => exact trades_unary s .int .int
  | longCompare => exact trades_binary s .long .int
  | floatingCompare kind _ => exact trades_binary s kind .int
  | ifZero _ _ => exact trades_popCounts 1
  | ifIntCompare _ _ => exact trades_popCounts 2
  | ifReferenceCompare _ _ => exact .bind .popReference fun _ => .bind .popReference fun _ => .pure () rfl
  | ifNull _ _ => exact .discard (.done .popReference rfl)
  | goto _ => exact trades_unchanged hpopped hpushed
  | jsr _ => exact .push rfl rfl
  | ret index =>
      exact .get_bind fun _ => .bind (.check (Locals.foresees_load _ _ _)) fun _ =>
        trades_unchanged hpopped hpushed
  | tableSwitch _ _ _ _ => exact trades_popCounts 1
  | lookupSwitch _ _ => exact trades_popCounts 1
  | returnValue kind => exact trades_returnValue s hpopped hpushed kind
  | getStatic field => exact .push rfl (StackItem.slots_ofField _ _)
  | putStatic field => exact .done (.lift (Setting.taken_popOf field.type)) (Nat.zero_add _)
  | getField field => exact .bind .popReference fun _ => .push rfl (StackItem.slots_ofField _ _)
  | putField field =>
      exact .bind (.lift (Setting.taken_popOf field.type)) fun _ => .bind .popReference fun _ =>
        .pure () (by rw [Nat.zero_add]; rfl)
  | invoke kind method => exact trades_invoke s kind method
  | newObject type => exact trades_pushReference s _ _
  | newArray element => exact .bind (.popNumeric .int) fun _ => trades_pushReference s _ _
  | newReferenceArray element => exact trades_newReferenceArray s element
  | arrayLength => exact trades_arrayLength s
  | athrow => exact .discard (.done .popReference rfl)
  | checkCast type => exact .bind .popReference fun _ => trades_pushReference s _ _
  | instanceOf _ => exact .bind .popReference fun _ => trades_pushComputed s .int
  | monitorEnter => exact .discard (.done .popReference rfl)
  | monitorExit => exact .discard (.done .popReference rfl)
  | newMultiArray type dimensions =>
      exact .bind (.lift (Setting.taken_popCounts _)) fun _ => .push (Nat.zero_add _) rfl

theorem Shuffle.op_of_run {op : ShuffleOp} {form : Shuffle} {stack stack' : OperandStack}
    (h : op.run stack = .ok form stack') : form.op = op := by
  cases op <;> obtain ⟨_, _, _, hpure⟩ := bind_run.mp h <;> cases hpure <;> rfl

/-- What an operation does is told by the instruction that it turns out to be. -/
theorem Operation.trades_perform (hstart : start.Sound) (hpopped : start.popped = 0)
    (hpushed : start.pushed = 0) (op : Operation) :
    Yields (fun machine : Machine => start.Taken 0 machine.stack) (op.perform s)
      (fun i machine => start.Moved i.slotsTaken i.slotsPut machine.stack)
      (fun fault machine => start.Settled fault machine.stack) := by
  cases op with
  | instruction i =>
      exact .bind (i.trades_perform s hstart hpopped hpushed) fun _ => .pure fun _ h => h
  | shuffle op =>
      intro machine hmachine
      have hrun := trades_shuffle hstart op machine hmachine
      change Ends _ _ (EStateM.bind (MachineOp.onStack op.run) _ machine)
      unfold EStateM.bind
      cases hresult : MachineOp.onStack op.run machine with
      | error fault after =>
          rw [hresult] at hrun
          exact hrun
      | ok form after =>
          rw [hresult] at hrun
          obtain ⟨stack, hform, _⟩ := MachineOp.onStack_ok.mp hresult
          change start.Moved form.op.slotsTaken form.op.slotsPut after.stack
          rw [Shuffle.op_of_run hform]
          exact hrun

end Perform

end ClassFile
