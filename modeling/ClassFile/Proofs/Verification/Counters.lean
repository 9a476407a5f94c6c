import ClassFile.Proofs.Verification.Depths
import ClassFile.Proofs.Words

/-! The counters of an operand stack do not overflow. An item that is taken off a sound stack takes no more
slots than there are, and what an instruction takes was on the stack when it began; an item is put on it only
if there is room for it, and what an instruction puts is on the stack when it is done. All of this is below
the limit of the stack, which is a word itself. -/

namespace ClassFile

namespace OperandStack

/-- The sums of taking the topmost item, of which there are none without an item. -/
def popSums (stack : OperandStack) : List WordSum :=
  match stack.items with
  | [] => []
  | item :: _ => [.sub stack.depth item.size, .add stack.popped item.size]

/-- The sums of putting an item, of which there are none without room for it. -/
def pushSums (stack : OperandStack) (item : StackItem) : List WordSum :=
  if stack.maxStack.toNat < stack.depth.toNat + item.size.toNat then []
  else [.add stack.depth item.size, .add stack.pushed item.size]

/-- The sums that the basic operations on an operand stack form: those of its depth and of its counters. -/
inductive Counts : (α : Type) → StackOp α → OperandStack → List WordSum → Prop
  | pop (stack : OperandStack) : Counts StackItem pop stack stack.popSums
  | push (stack : OperandStack) (item : StackItem) : Counts Unit (push item) stack (stack.pushSums item)
  | pushReserved (stack : OperandStack) (item : StackItem) :
      Counts Unit (pushReserved item) stack (stack.pushSums item)
  /-- An operation that leaves every stack as it is forms no sums. -/
  | quiet {α : Type} {op : StackOp α} (same : ∀ stack, endState (op stack) = stack) (stack : OperandStack) :
      Counts α op stack []

end OperandStack

/-- The sums that the basic operations on a machine form. These are those on its stack. -/
inductive Machine.Counts : (α : Type) → MachineOp α → Machine → List WordSum → Prop
  | onStack {α : Type} {op : StackOp α} {machine : Machine} {sums : List WordSum}
      (forms : Forms OperandStack.Counts op machine.stack sums) :
      Counts α (MachineOp.onStack op) machine sums
  | quiet {α : Type} {op : MachineOp α} (same : ∀ machine, (endState (op machine)).stack = machine.stack)
      (machine : Machine) : Counts α op machine []

namespace OperandStack

/-- Items were taken off a stack, and none was put on it yet. -/
def Taking (start now : OperandStack) : Prop := ∃ taken, Exchanged start taken [] now

/-- Items were taken off a stack, and others put on it. -/
def Putting (start now : OperandStack) : Prop := ∃ taken put, Exchanged start taken put now

/-- A stack as an instruction is entered with it. -/
structure Begun (start : OperandStack) : Prop where
  sound : start.Sound
  popped : start.popped = 0
  pushed : start.pushed = 0

variable {start now : OperandStack}

theorem Begun.taking (h : start.Begun) : Taking start start := ⟨[], .refl h.sound⟩

theorem Taking.putting (h : Taking start now) : Putting start now := by
  obtain ⟨taken, h⟩ := h
  exact ⟨taken, [], h⟩

theorem forall_mem_pair {P : WordSum → Prop} {a b : WordSum} (ha : P a) (hb : P b) :
    ∀ sum ∈ [a, b], P sum := List.forall_mem_cons.mpr ⟨ha, List.forall_mem_singleton.mpr hb⟩

/-- No more is taken off a sound stack than there is, and what the counter counts was on it. -/
theorem Sound.fits_popSums (h : now.Sound)
    (hpopped : ∀ item rest, now.items = item :: rest → now.popped.toNat + item.size.toNat < 65536) :
    ∀ sum ∈ now.popSums, sum.Fits := by
  unfold popSums
  cases hitems : now.items with
  | nil => exact List.forall_mem_nil _
  | cons item rest =>
    refine forall_mem_pair (WordSum.fits_sub ?_) (WordSum.fits_add (hpopped item rest hitems))
    rw [UInt16.le_iff_toNat_le, ← h.depth, hitems]
    exact Nat.le_add_right _ _

theorem Begun.fits_popSums (hstart : start.Begun) {taken : List Category} (h : Exchanged start taken [] now) :
    ∀ sum ∈ now.popSums, sum.Fits := by
  refine h.sound.fits_popSums fun item rest hitems => ?_
  have htaken := (h.take hitems).taken_le hstart.sound
  have hlimit := start.depth.toNat_lt
  rw [Category.slots_append, Category.slots_singleton] at htaken
  rw [(h.counters hstart.sound hstart.popped hstart.pushed).1]
  exact Nat.lt_of_le_of_lt htaken hlimit

/-- What is put on a stack is on it within its limit. -/
theorem Begun.fits_pushSums (hstart : start.Begun) {taken put : List Category}
    (h : Exchanged start taken put now) (item : StackItem) : ∀ sum ∈ now.pushSums item, sum.Fits := by
  unfold pushSums
  split
  · exact List.forall_mem_nil _
  · rename_i hroom
    have hlimit := now.maxStack.toNat_lt
    have hput := h.put_le
    have hpushed := (h.counters hstart.sound hstart.popped hstart.pushed).2
    exact forall_mem_pair (WordSum.fits_add (by omega)) (WordSum.fits_add (by omega))

end OperandStack

open OperandStack

/-- An operation that takes items, and puts none. -/
abbrev Takes {α : Type} (start : OperandStack) (op : StackOp α) : Prop :=
  Adds OperandStack.Counts start.Taking op start.Taking

/-- An operation that puts items, and takes none. -/
abbrev Puts {α : Type} (start : OperandStack) (op : StackOp α) : Prop :=
  Adds OperandStack.Counts start.Putting op start.Putting

/-- An operation that takes items first, and puts others then. -/
abbrev Swaps {α : Type} (start : OperandStack) (op : StackOp α) : Prop :=
  Adds OperandStack.Counts start.Taking op start.Putting

section Operations

variable {start : OperandStack} {α β : Type} {before : OperandStack → Prop}

/-- What leaves all stacks as they are forms no sums. -/
theorem adds_quiet {op : StackOp α} (h : ∀ stack, endState (op stack) = stack) :
    Adds OperandStack.Counts before op before := by
  refine .quiet (.quiet h) (.of_run fun stack a stack' hstack hrun => ?_)
  have hsame := h stack
  rw [hrun] at hsame
  rwa [← hsame] at hstack

theorem adds_pure (a : α) : Adds OperandStack.Counts before (pure a) before := adds_quiet fun _ => rfl

theorem adds_throw (fault : CodeFault) {after : OperandStack → Prop} :
    Adds OperandStack.Counts before (throw fault : StackOp α) after :=
  .quiet (.quiet fun _ => rfl) .throw

theorem adds_peekAt (n : Nat) : Adds OperandStack.Counts before (peekAt n) before := by
  refine adds_quiet fun stack => ?_
  rw [peekAt, get_bind_run]
  cases stack.items[n]? <;> rfl

theorem adds_reserve (slots : UInt16) : Adds OperandStack.Counts before (reserve slots) before := by
  refine adds_quiet fun stack => ?_
  rw [reserve, get_bind_run]
  split <;> rfl

theorem adds_unchanged : Adds OperandStack.Counts before unchanged before := by
  refine adds_quiet fun stack => ?_
  rw [unchanged, get_bind_run]
  split <;> rfl

theorem takes_pop (hstart : start.Begun) : Takes start pop where
  fitting := fun stack ⟨_, hstack⟩ => ⟨_, .basic (.pop stack), hstart.fits_popSums hstack⟩
  ensures := .of_run fun _ _ _ ⟨_, hstack⟩ hrun => ⟨_, yields_pop.returned hstack hrun⟩

theorem puts_push (hstart : start.Begun) (item : StackItem) : Puts start (push item) where
  fitting := fun stack ⟨_, _, hstack⟩ => ⟨_, .basic (.push stack item), hstart.fits_pushSums hstack item⟩
  ensures := .of_run fun _ _ _ ⟨_, _, hstack⟩ hrun => ⟨_, _, (yields_push item).returned hstack hrun⟩

theorem puts_pushReserved (hstart : start.Begun) (item : StackItem) : Puts start (pushReserved item) where
  fitting := fun stack ⟨_, _, hstack⟩ =>
    ⟨_, .basic (.pushReserved stack item), hstart.fits_pushSums hstack item⟩
  ensures := by
    refine .of_run fun stack _ stack' ⟨_, _, hstack⟩ hrun => ?_
    unfold pushReserved at hrun
    split at hrun
    · rename_i hpush
      cases hrun
      exact ⟨_, _, (yields_push item).returned hstack hpush⟩
    · cases hrun

theorem puts_pushAllReserved (hstart : start.Begun) (items : List StackItem) :
    Puts start (pushAllReserved items) := by
  induction items with
  | nil => exact adds_pure ()
  | cons item rest ih => exact .bind (puts_pushReserved hstart item) fun _ => ih

/-- An item is looked at before it is taken. -/
theorem adds_popIf {after : OperandStack → Prop} (hpop : Adds OperandStack.Counts before pop after)
    (expected : Subject) (accepts : StackItem → Bool) :
    Adds OperandStack.Counts before (popIf expected accepts) after := by
  refine .bind (adds_peekAt 0) fun top => ?_
  split
  · exact hpop
  · exact adds_throw _

theorem takes_popIf (hstart : start.Begun) (expected : Subject) (accepts : StackItem → Bool) :
    Takes start (popIf expected accepts) := adds_popIf (takes_pop hstart) expected accepts

theorem takes_popValue (hstart : start.Begun) (c : Category) : Takes start (popValue c) := by
  cases c with
  | reference | returnAddress | _ => exact takes_popIf hstart _ _

/-- Items are put after others were taken. -/
theorem Puts.swaps {op : StackOp α} (h : Puts start op) : Swaps start op :=
  h.mono (fun _ => Taking.putting) fun _ hafter => hafter

theorem Takes.swaps {op : StackOp α} (h : Takes start op) : Swaps start op :=
  h.mono (fun _ hbefore => hbefore) fun _ => Taking.putting

theorem swaps_putBack (hstart : start.Begun) (slots : UInt16) (items : List StackItem) :
    Swaps start (do
      reserve slots
      pushAllReserved items) :=
  Puts.swaps (.bind (adds_reserve slots) fun _ => puts_pushAllReserved hstart items)

/-- Items are put back after others, and the form of the instruction is returned. -/
theorem swaps_putBackAs (hstart : start.Begun) (slots : UInt16) (items : List StackItem) (form : α) :
    Swaps start (do
      reserve slots
      pushAllReserved items
      return form) :=
  Puts.swaps <| .bind (adds_reserve slots) fun _ => .bind (puts_pushAllReserved hstart items) fun _ =>
    adds_pure form

theorem swaps_popIf_bind (hstart : start.Begun) {expected : Subject} {accepts : StackItem → Bool}
    {next : StackItem → StackOp α} (h : ∀ item, Swaps start (next item)) :
    Swaps start (popIf expected accepts >>= next) := .bind (takes_popIf hstart expected accepts) h

theorem swaps_pure (a : α) : Swaps start (pure a) := Takes.swaps (adds_pure a)

theorem swaps_throw_bind (fault : CodeFault) {next : β → StackOp α} :
    Swaps start ((throw fault : StackOp β) >>= next) := Takes.swaps (adds_quiet fun _ => rfl)

end Operations

section Shuffles

variable {start : OperandStack} (hstart : start.Begun)

include hstart

theorem swaps_pop2 : Swaps start pop2 := by
  refine .bind (adds_peekAt 0) fun top => ?_
  split
  · exact swaps_popIf_bind hstart fun _ => swaps_pure _
  · exact swaps_popIf_bind hstart fun _ => swaps_popIf_bind hstart fun _ => swaps_pure _

theorem swaps_dup : Swaps start dup :=
  swaps_popIf_bind hstart fun _ => swaps_putBack hstart _ _

theorem swaps_dupX1 : Swaps start dupX1 :=
  swaps_popIf_bind hstart fun _ => swaps_popIf_bind hstart fun _ => swaps_putBack hstart _ _

theorem swaps_dupX2 : Swaps start dupX2 := by
  refine .bind (adds_peekAt 0) fun top => ?_
  split
  · exact swaps_throw_bind _
  refine .bind (adds_peekAt 1) fun second => ?_
  split
  · exact swaps_popIf_bind hstart fun _ => swaps_popIf_bind hstart fun _ =>
      swaps_putBackAs hstart _ _ _
  · exact swaps_popIf_bind hstart fun _ => swaps_popIf_bind hstart fun _ =>
      swaps_popIf_bind hstart fun _ => swaps_putBackAs hstart _ _ _

theorem swaps_dup2 : Swaps start dup2 := by
  refine .bind (adds_peekAt 0) fun top => ?_
  split
  · exact swaps_popIf_bind hstart fun _ => swaps_putBackAs hstart _ _ _
  · exact swaps_popIf_bind hstart fun _ => swaps_popIf_bind hstart fun _ =>
      swaps_putBackAs hstart _ _ _

theorem swaps_dup2X1 : Swaps start dup2X1 := by
  refine .bind (adds_peekAt 0) fun top => ?_
  split
  · exact swaps_popIf_bind hstart fun _ => swaps_popIf_bind hstart fun _ =>
      swaps_putBackAs hstart _ _ _
  · exact swaps_popIf_bind hstart fun _ => swaps_popIf_bind hstart fun _ =>
      swaps_popIf_bind hstart fun _ => swaps_putBackAs hstart _ _ _

theorem swaps_dup2X2 : Swaps start dup2X2 := by
  refine .bind (adds_peekAt 0) fun top => ?_
  split
  · refine .bind (adds_peekAt 1) fun second => ?_
    split
    · exact swaps_popIf_bind hstart fun _ => swaps_popIf_bind hstart fun _ =>
        swaps_putBackAs hstart _ _ _
    · exact swaps_popIf_bind hstart fun _ => swaps_popIf_bind hstart fun _ =>
        swaps_popIf_bind hstart fun _ => swaps_putBackAs hstart _ _ _
  · refine .bind (adds_peekAt 1) fun second => ?_
    split
    · exact swaps_throw_bind _
    refine .bind (adds_peekAt 2) fun third => ?_
    split
    · exact swaps_popIf_bind hstart fun _ => swaps_popIf_bind hstart fun _ =>
        swaps_popIf_bind hstart fun _ => swaps_putBackAs hstart _ _ _
    · exact swaps_popIf_bind hstart fun _ => swaps_popIf_bind hstart fun _ =>
        swaps_popIf_bind hstart fun _ => swaps_popIf_bind hstart fun _ =>
          swaps_putBackAs hstart _ _ _

theorem swaps_swap : Swaps start swap :=
  swaps_popIf_bind hstart fun _ => swaps_popIf_bind hstart fun _ =>
    (puts_pushAllReserved hstart _).swaps

theorem swaps_shuffle (op : ShuffleOp) : Swaps start op.run := by
  cases op with
  | pop => exact swaps_popIf_bind hstart fun _ => swaps_pure _
  | pop2 => exact .bind (swaps_pop2 hstart) fun _ => adds_pure _
  | dup => exact .bind (swaps_dup hstart) fun _ => adds_pure _
  | dupX1 => exact .bind (swaps_dupX1 hstart) fun _ => adds_pure _
  | dupX2 => exact .bind (swaps_dupX2 hstart) fun _ => adds_pure _
  | dup2 => exact .bind (swaps_dup2 hstart) fun _ => adds_pure _
  | dup2X1 => exact .bind (swaps_dup2X1 hstart) fun _ => adds_pure _
  | dup2X2 => exact .bind (swaps_dup2X2 hstart) fun _ => adds_pure _
  | swap => exact .bind (swaps_swap hstart) fun _ => adds_pure _

end Shuffles

/-- An operation on a machine that takes items, and puts none. -/
abbrev MachineTakes {α : Type} (start : OperandStack) (op : MachineOp α) : Prop :=
  Adds Machine.Counts (fun machine : Machine => start.Taking machine.stack) op
    fun machine => start.Taking machine.stack

/-- An operation on a machine that takes items first, and puts others then. -/
abbrev MachineSwaps {α : Type} (start : OperandStack) (op : MachineOp α) : Prop :=
  Adds Machine.Counts (fun machine : Machine => start.Taking machine.stack) op
    fun machine => start.Putting machine.stack

namespace Machine

variable {start : OperandStack} {α β : Type} {before after : OperandStack → Prop}

theorem adds_onStack {op : StackOp α} (h : Adds OperandStack.Counts before op after) :
    Adds Machine.Counts (fun machine : Machine => before machine.stack) (MachineOp.onStack op)
      fun machine => after machine.stack := by
  constructor
  · intro machine hmachine
    obtain ⟨sums, hforms, hfits⟩ := h.fitting machine.stack hmachine
    exact ⟨sums, .basic (.onStack hforms), hfits⟩
  · refine .of_run fun machine a machine' hmachine hrun => ?_
    obtain ⟨stack, hstack, rfl⟩ := MachineOp.onStack_ok.mp hrun
    exact h.ensures.returned hmachine hstack

theorem adds_still {op : MachineOp α} (h : ∀ machine, (endState (op machine)).stack = machine.stack) :
    Adds Machine.Counts (fun machine : Machine => before machine.stack) op
      fun machine => before machine.stack := by
  refine .quiet (.quiet h) (.of_run fun machine a machine' hmachine hrun => ?_)
  have hsame := h machine
  rw [hrun] at hsame
  rwa [← hsame] at hmachine

theorem adds_check (result : Except CodeFault α) :
    Adds Machine.Counts (fun machine : Machine => before machine.stack) (MachineOp.ofExcept result)
      fun machine => before machine.stack := by
  refine adds_still fun machine => ?_
  cases result <;> rfl

theorem adds_get_bind {next : Machine → MachineOp α} {P Q : Machine → Prop}
    (h : ∀ machine, Adds Machine.Counts P (next machine) Q) : Adds Machine.Counts P (get >>= next) Q := by
  have hget : Adds Machine.Counts P (get : MachineOp Machine) P :=
    .quiet (.quiet fun _ => rfl) fun _ hmachine => hmachine
  exact .bind hget h

theorem adds_discard {op : MachineOp α} {P Q : Machine → Prop} (h : Adds Machine.Counts P op Q) :
    Adds Machine.Counts P (discard op) Q := h.discard (.quiet fun _ => rfl)

theorem swaps_of_takes {op : MachineOp α} (h : MachineTakes start op) : MachineSwaps start op :=
  h.mono (fun _ hbefore => hbefore) fun _ => Taking.putting

theorem swaps_throw (fault : CodeFault) : MachineSwaps start (throw fault : MachineOp α) :=
  swaps_of_takes (adds_still fun _ => rfl)

end Machine

section Perform

variable {start : OperandStack} (hstart : start.Begun) (s : Setting)

open Machine

include hstart

theorem swaps_push (item : StackItem) : MachineSwaps start (MachineOp.onStack (push item)) :=
  adds_onStack (puts_push hstart item).swaps

theorem takes_popNumeric (c : Category) : MachineTakes start (MachineOp.onStack (popNumeric c)) :=
  adds_onStack (takes_popIf hstart _ _)

theorem takes_popReference : MachineTakes start (MachineOp.onStack popReference) :=
  adds_onStack (takes_popIf hstart _ _)

omit hstart in
theorem swaps_unchanged : MachineSwaps start (MachineOp.onStack unchanged) :=
  swaps_of_takes (adds_onStack adds_unchanged)

theorem swaps_load (kind : ValueKind) (index : UInt16) : MachineSwaps start (s.load kind index) :=
  adds_get_bind fun _ => .bind (adds_check _) fun _ => .bind (adds_check _) fun _ => swaps_push hstart _

theorem takes_popStored (kind : ValueKind) : Takes start (Setting.popStored kind) := by
  cases kind with
  | reference | _ => exact takes_popIf hstart _ _

theorem swaps_store (kind : ValueKind) (index : UInt16) : MachineSwaps start (s.store kind index) := by
  refine .bind (adds_onStack (takes_popStored hstart kind)) fun stored => adds_get_bind fun _ => ?_
  refine .bind (adds_check _) fun locals => .bind (adds_still fun _ => rfl) fun _ => ?_
  split
  · exact swaps_of_takes (adds_check _)
  · exact swaps_of_takes (adds_still fun _ => rfl)

theorem swaps_arrayLoad (kind : ElementKind) : MachineSwaps start (s.arrayLoad kind) :=
  .bind (takes_popNumeric hstart _) fun _ => .bind (takes_popReference hstart) fun _ =>
    .bind (adds_check _) fun _ => swaps_push hstart _

theorem swaps_arrayStore (kind : ElementKind) : MachineSwaps start (Setting.arrayStore kind) :=
  .bind (adds_onStack (takes_popValue hstart _)) fun _ => .bind (takes_popNumeric hstart _) fun _ =>
    .bind (takes_popReference hstart) fun _ => swaps_of_takes (adds_discard (adds_check _))

theorem swaps_binary (kind result : NumericKind) : MachineSwaps start (s.binary kind result) :=
  .bind (takes_popNumeric hstart _) fun _ => .bind (takes_popNumeric hstart _) fun _ => swaps_push hstart _

theorem swaps_unary (kind result : NumericKind) : MachineSwaps start (s.unary kind result) :=
  .bind (takes_popNumeric hstart _) fun _ => swaps_push hstart _

theorem swaps_shift (kind : NumericKind) : MachineSwaps start (s.shift kind) :=
  .bind (takes_popNumeric hstart _) fun _ => .bind (takes_popNumeric hstart _) fun _ => swaps_push hstart _

theorem swaps_returnValue (kind : Option ValueKind) : MachineSwaps start (s.returnValue kind) := by
  unfold Setting.returnValue
  dsimp only
  cases kind.map ValueKind.category with
  | none =>
    cases s.method.descriptor.returnType.category? with
    | none => exact swaps_unchanged
    | some wanted => exact swaps_throw _
  | some given =>
    cases s.method.descriptor.returnType.category? with
    | none => exact swaps_throw _
    | some wanted =>
      dsimp only
      split
      · exact swaps_of_takes (adds_discard (adds_onStack (takes_popValue hstart _)))
      · exact swaps_throw _

theorem takes_popOf (type : FieldType) : Takes start (Setting.popOf type) :=
  (takes_popValue hstart type.category).discard (.quiet fun _ => rfl)

theorem takes_popAllOf (types : List FieldType) : Takes start (Setting.popAllOf types) := by
  induction types with
  | nil => exact adds_pure ()
  | cons type rest ih => exact .bind (takes_popOf hstart type) fun _ => ih

theorem takes_popCounts (count : Nat) : Takes start (Setting.popCounts count) := by
  induction count with
  | zero => exact adds_pure ()
  | succ count ih => exact .bind (takes_popIf hstart _ _) fun _ => ih

theorem swaps_invoke (kind : InvokeKind) (method : MethodRef) :
    MachineSwaps start (s.invoke kind method) := by
  refine .bind (adds_onStack (takes_popAllOf hstart _)) fun _ => ?_
  dsimp only
  split
  · refine .bind (adds_discard (takes_popReference hstart)) fun _ => ?_
    split
    · exact swaps_of_takes (adds_still fun _ => rfl)
    · exact swaps_push hstart _
  · split
    · exact swaps_of_takes (adds_still fun _ => rfl)
    · exact swaps_push hstart _

theorem swaps_newReferenceArray (element : ClassName) :
    MachineSwaps start (s.newReferenceArray element) := by
  unfold Setting.newReferenceArray
  split
  · exact swaps_throw _
  · exact .bind (takes_popNumeric hstart _) fun _ => swaps_push hstart _

theorem swaps_arrayLength : MachineSwaps start s.arrayLength := by
  refine .bind (takes_popReference hstart) fun array => ?_
  dsimp only
  split
  · split
    · exact swaps_of_takes (adds_still fun _ => rfl)
    · exact swaps_push hstart _
  · exact swaps_push hstart _

/-- Every instruction takes first and puts then. -/
theorem Instruction.swaps_perform (i : Instruction) : MachineSwaps start (i.perform s) := by
  cases i with
  | nop => exact swaps_unchanged
  | constant value => exact swaps_push hstart _
  | ldc value => exact swaps_push hstart _
  | load kind index => exact swaps_load hstart s kind index
  | store kind index => exact swaps_store hstart s kind index
  | arrayLoad kind => exact swaps_arrayLoad hstart s kind
  | arrayStore kind => exact swaps_arrayStore hstart kind
  | shuffle form => exact adds_discard (adds_onStack (swaps_shuffle hstart form.op))
  | arithmetic _ kind _ => exact swaps_binary hstart s kind kind
  | negate kind _ => exact swaps_unary hstart s kind kind
  | shift _ kind => exact swaps_shift hstart s kind
  | bitwise _ kind => exact swaps_binary hstart s kind kind
  | increment index _ =>
    exact adds_get_bind fun _ => .bind (adds_check _) fun _ => .bind (adds_check _) fun _ =>
      swaps_unchanged
  | convert source target _ => exact swaps_unary hstart s source target
  | truncate _ => exact swaps_unary hstart s .int .int
  | longCompare => exact swaps_binary hstart s .long .int
  | floatingCompare kind _ => exact swaps_binary hstart s kind .int
  | ifZero _ _ => exact swaps_of_takes (adds_onStack (takes_popCounts hstart 1))
  | ifIntCompare _ _ => exact swaps_of_takes (adds_onStack (takes_popCounts hstart 2))
  | ifReferenceCompare _ _ =>
    exact swaps_of_takes <| .bind (takes_popReference hstart) fun _ =>
      .bind (takes_popReference hstart) fun _ => adds_still fun _ => rfl
  | ifNull _ _ => exact swaps_of_takes (adds_discard (takes_popReference hstart))
  | goto _ => exact swaps_unchanged
  | jsr _ => exact swaps_push hstart _
  | ret index => exact adds_get_bind fun _ => .bind (adds_check _) fun _ => swaps_unchanged
  | tableSwitch _ _ _ _ => exact swaps_of_takes (adds_onStack (takes_popCounts hstart 1))
  | lookupSwitch _ _ => exact swaps_of_takes (adds_onStack (takes_popCounts hstart 1))
  | returnValue kind => exact swaps_returnValue hstart s kind
  | getStatic field => exact swaps_push hstart _
  | putStatic field => exact swaps_of_takes (adds_onStack (takes_popOf hstart field.type))
  | getField field => exact .bind (takes_popReference hstart) fun _ => swaps_push hstart _
  | putField field =>
    exact swaps_of_takes (.bind (adds_onStack (takes_popOf hstart field.type)) fun _ =>
      .bind (takes_popReference hstart) fun _ => adds_still fun _ => rfl)
  | invoke kind method => exact swaps_invoke hstart s kind method
  | newObject type => exact swaps_push hstart _
  | newArray element => exact .bind (takes_popNumeric hstart _) fun _ => swaps_push hstart _
  | newReferenceArray element => exact swaps_newReferenceArray hstart s element
  | arrayLength => exact swaps_arrayLength hstart s
  | athrow => exact swaps_of_takes (adds_discard (takes_popReference hstart))
  | checkCast type => exact .bind (takes_popReference hstart) fun _ => swaps_push hstart _
  | instanceOf _ => exact .bind (takes_popReference hstart) fun _ => swaps_push hstart _
  | monitorEnter => exact swaps_of_takes (adds_discard (takes_popReference hstart))
  | monitorExit => exact swaps_of_takes (adds_discard (takes_popReference hstart))
  | newMultiArray type dimensions =>
    exact .bind (adds_onStack (takes_popCounts hstart _)) fun _ => swaps_push hstart _

theorem Operation.swaps_perform (op : Operation) : MachineSwaps start (op.perform s) := by
  cases op with
  | instruction i =>
    exact .bind (i.swaps_perform hstart s) fun _ => adds_still fun _ => rfl
  | shuffle op =>
    exact .bind (adds_onStack (swaps_shuffle hstart op)) fun _ => adds_still fun _ => rfl

end Perform

/-- The return address that a subroutine was called with is the only item that is taken behind a call. -/
theorem OperandStack.Sound.adds_popReturnAddress {stack : OperandStack} (h : stack.Sound)
    (hpopped : stack.popped = 0) :
    ∃ sums, Forms OperandStack.Counts popReturnAddress stack sums ∧ ∀ sum ∈ sums, sum.Fits := by
  have hpop : Adds OperandStack.Counts (· = stack) pop fun _ => True := by
    refine ⟨?_, .of_run fun _ _ _ _ _ => trivial⟩
    rintro _ rfl
    refine ⟨_, .basic (.pop _), h.fits_popSums fun item rest _ => ?_⟩
    have hsize := item.size.toNat_lt
    rw [hpopped]
    change 0 + item.size.toNat < 65536
    omega
  exact (adds_popIf hpop _ _).fitting stack rfl

namespace Pass

variable {p : Premises} {pass start final : Pass}

theorem sound_run (hsound : pass.machine.stack.Sound) {places : List ListedPlace}
    (h : run p pass places = .ok final) : final.machine.stack.Sound := by
  induction places generalizing pass with
  | nil =>
    cases h
    exact hsound
  | cons place rest ih =>
    obtain ⟨next, hstep, hrest⟩ := bind_ok.mp h
    obtain ⟨_, _, _, hnext⟩ := step_comes hsound (atOffset_ok.mp hstep)
    exact ih hnext hrest

/-- What an operation adds that is performed behind the places that the pass has gone over. -/
theorem sums_perform (hstart : Pass.start p = .ok start) {places : List ListedPlace}
    (hrun : run p start places = .ok pass) {pc : UInt16} {before : Machine}
    (hbefore : pass.enter p pc = .ok before) (s : Setting) (op : Operation) :
    (∃ sums, Forms Machine.Counts (op.perform s) before sums ∧ ∀ sum ∈ sums, sum.Fits) ∧
      ∀ i after, op.perform s before = .ok i after → i.isSubroutineCall = true →
        ∃ sums, Forms OperandStack.Counts popReturnAddress after.stack sums ∧ ∀ sum ∈ sums, sum.Fits := by
  obtain ⟨hsound, hpopped, hpushed⟩ :=
    (enter_sound (sound_run (start_sound hstart).1 hrun) pc).2 before hbefore
  have hbegun : before.stack.Begun := ⟨hsound, hpopped, hpushed⟩
  refine ⟨(op.swaps_perform hbegun s).fitting before hbegun.taking, fun i after hperform hcall => ?_⟩
  have htrades := op.trades_perform s hsound hpopped hpushed before (taken_start hsound)
  rw [hperform] at htrades
  obtain ⟨taken, put, hexchanged, htaken, _⟩ := htrades
  have hnone : i.slotsTaken = 0 := by
    cases i with
    | jsr _ => rfl
    | _ => cases hcall
  refine hexchanged.sound.adds_popReturnAddress ?_
  rw [hexchanged.popped, hpopped, htaken, hnone]
  rfl

end Pass

end ClassFile
