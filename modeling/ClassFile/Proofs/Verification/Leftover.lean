import ClassFile.Proofs.Verification.Blaming
import ClassFile.Proofs.Verification.SlotMachine

/-! The fault that bytes are left over at the end of the code is reported once all instructions are verified,
and nowhere before: neither what decodes an instruction nor what verifies one has it. Decoding finds that an
instruction goes on behind the end, which is the opposite. -/

namespace ClassFile

/-- A fault that does not say that bytes are left over. -/
def CodeFault.NoLeftover : CodeFault → Prop
  | .wrongCodeLength expected actual => expected ≤ actual
  | _ => True

theorem CodeFault.Plain.noLeftover {fault : CodeFault} (h : fault.Plain) : fault.NoLeftover := by
  cases fault with
  | wrongCodeLength expected actual => cases h
  | _ => trivial

/-- A check that finds no bytes left over. -/
abbrev FindsNoLeftover {α : Type} (result : Except CodeFault α) : Prop :=
  FailsOnly CodeFault.NoLeftover result

/-- An action that finds no bytes left over. -/
abbrev NoLeftover {σ α : Type} (action : EStateM CodeFault σ α) : Prop :=
  Blames CodeFault.NoLeftover action

open CodeFault.Plain

namespace Decoder

variable {α : Type} {site : Site}

theorem noLeftover_bytes (n : Nat) : NoLeftover (Reader.bytes (ε := CodeFault) n) := by
  intro cursor _
  unfold Reader.bytes
  split
  · exact trivial
  · trivial

theorem noLeftover_u8 : NoLeftover (Reader.u8 : Decoder UInt8) :=
  .bind (noLeftover_bytes 1) fun _ => .pure _

theorem noLeftover_u16 : NoLeftover (Reader.u16 : Decoder UInt16) :=
  .bind (noLeftover_bytes 2) fun _ => .pure _

theorem noLeftover_i8 : NoLeftover (Reader.i8 : Decoder Int8) := .bind noLeftover_u8 fun _ => .pure _

theorem noLeftover_i16 : NoLeftover (Reader.i16 : Decoder Int16) := .bind noLeftover_u16 fun _ => .pure _

theorem noLeftover_i32 : NoLeftover (Reader.i32 : Decoder Int32) :=
  .bind (.bind (noLeftover_bytes 4) fun _ => .pure _) fun _ => .pure _

theorem noLeftover_ofPool (result : Except Pool.Located α) : NoLeftover (ofPool result) := by
  cases result with
  | ok value => exact .pure value
  | error located => exact .throw trivial

theorem noLeftover_malformed (fault : OperandFault) : NoLeftover (malformed site fault : Decoder α) :=
  .throw trivial

theorem malformed_then {β : Type} (fault : OperandFault) {next : α → Decoder β} :
    NoLeftover (malformed site fault >>= next) := .throw_bind trivial

/-- An instruction that goes on behind the end wants more bytes than there are. -/
theorem noLeftover_requireLength (length : Nat) : NoLeftover (requireLength site length) := by
  unfold requireLength
  dsimp only
  split
  · rename_i hstop
    have hlength := site.codeLength.toNat_lt
    refine .throw (?_ : site.codeLength.toNat ≤ _)
    unfold maxLength
    omega
  · exact .pure ()

theorem noLeftover_targetAt (distance : Int) : NoLeftover (targetAt site distance) := by
  unfold targetAt
  dsimp only
  split
  · exact .throw trivial
  · exact .pure _

theorem noLeftover_longTarget : NoLeftover (longTarget site) :=
  .bind noLeftover_i32 fun _ => noLeftover_targetAt _

theorem noLeftover_shortTarget : NoLeftover (shortTarget site) :=
  .bind noLeftover_i16 fun _ => noLeftover_targetAt _

theorem noLeftover_classRef : NoLeftover (classRef site) :=
  .bind noLeftover_u16 fun _ => noLeftover_ofPool _

theorem noLeftover_poolConstant (index : UInt16) (wideValue : Bool) :
    NoLeftover (poolConstant site index wideValue) := by
  refine .bind (noLeftover_ofPool _) fun value => ?_
  have hfits : NoLeftover (do
      if wideValue ≠ (StackItem.ofField value.type ⟨site.pc, .constant⟩).isWide then
        throw (.mismatch (if wideValue then .wideConstant else .narrowConstant)
          (StackItem.ofField value.type ⟨site.pc, .constant⟩).subject)
      return .ldc value : Decoder Instruction) := by
    split
    · exact .throw_bind trivial
    · exact .pure _
  dsimp only
  split
  · split
    · exact malformed_then _
    · exact hfits
  · exact hfits

theorem noLeftover_padding (n : Nat) : NoLeftover (padding site n) := by
  induction n with
  | zero => exact .pure ()
  | succ n ih =>
      refine .bind noLeftover_u8 fun b => ?_
      split
      · exact malformed_then _
      · exact ih

theorem noLeftover_tableSwitch : NoLeftover (tableSwitch site) := by
  unfold tableSwitch
  refine .bind (noLeftover_requireLength _) fun _ => .bind (noLeftover_padding _) fun _ => ?_
  refine .bind noLeftover_longTarget fun default => .bind noLeftover_i32 fun low => ?_
  refine .bind noLeftover_i32 fun high => ?_
  split
  · exact malformed_then _
  · exact .bind (noLeftover_requireLength _) fun _ => .bind (noLeftover_longTarget.collect _) fun _ => .pure _

theorem noLeftover_switchPairs (found : List (Int32 × UInt16)) (n : Nat) :
    NoLeftover (switchPairs site found n) := by
  induction n generalizing found with
  | zero => exact .pure _
  | succ n ih =>
      refine .bind noLeftover_i32 fun key => .bind noLeftover_longTarget fun target => ?_
      split
      · split
        · exact malformed_then _
        · exact ih _
      · exact ih _

theorem noLeftover_lookupSwitch : NoLeftover (lookupSwitch site) := by
  unfold lookupSwitch
  refine .bind (noLeftover_requireLength _) fun _ => .bind (noLeftover_padding _) fun _ => ?_
  refine .bind noLeftover_longTarget fun default => .bind noLeftover_i32 fun count => ?_
  split
  · exact malformed_then _
  · exact .bind (noLeftover_requireLength _) fun _ => .bind (noLeftover_switchPairs _ _) fun _ => .pure _

theorem noLeftover_interfaceMethod : NoLeftover (interfaceMethod site) := by
  refine .bind noLeftover_u16 fun index => .bind (noLeftover_ofPool _) fun method => ?_
  refine .bind noLeftover_u8 fun count => .bind noLeftover_u8 fun zero => ?_
  dsimp only
  split
  · exact malformed_then _
  · split
    · exact malformed_then _
    · exact .pure _

theorem noLeftover_ordinaryMethod (kind : InvokeKind) : NoLeftover (ordinaryMethod site kind) := by
  refine .bind noLeftover_u16 fun index => .bind (noLeftover_ofPool _) fun method => ?_
  dsimp only
  split
  · exact .throw_bind trivial
  · exact .pure _

theorem noLeftover_invocation (kind : InvokeKind) : NoLeftover (invocation site kind) := by
  have hchecked : ∀ method : MethodRef, NoLeftover (do
      if method.name.isInit && kind ≠ .special then malformed site .initInvocation
      return .invoke kind method : Decoder Instruction) := by
    intro method
    split
    · exact malformed_then _
    · exact .pure _
  unfold invocation
  split
  · exact .bind noLeftover_interfaceMethod hchecked
  · exact .bind (noLeftover_ordinaryMethod kind) hchecked

theorem noLeftover_newArray : NoLeftover (newArray site) := by
  refine .bind noLeftover_u8 fun code => ?_
  split
  · exact noLeftover_malformed _
  · exact .pure _

theorem noLeftover_newMultiArray : NoLeftover (newMultiArray site) := by
  refine .bind noLeftover_classRef fun type => .bind noLeftover_u8 fun dimensions => ?_
  dsimp only
  split
  · exact malformed_then _
  · split
    · exact malformed_then _
    · exact .pure _

theorem noLeftover_wide : NoLeftover (wide site) := by
  refine .bind (noLeftover_requireLength _) fun _ => .bind noLeftover_u8 fun modified => ?_
  have hindex : ∀ i : UInt16 → Instruction, NoLeftover (do
      requireLength site 4
      return i (← Reader.u16) : Decoder Instruction) := fun i =>
    .bind (noLeftover_requireLength _) fun _ => .bind noLeftover_u16 fun _ => .pure _
  split
  · exact hindex _
  · exact hindex _
  · split
    · exact .throw_bind trivial
    · exact hindex _
  · exact .bind (noLeftover_requireLength _) fun _ => .bind noLeftover_u16 fun _ =>
      .bind noLeftover_i16 fun _ => .pure _
  · exact noLeftover_malformed _

theorem noLeftover_operands (layout : Layout) : NoLeftover (Decoder.operands site layout) := by
  have hdone : ∀ {decoder : Decoder Instruction}, NoLeftover decoder →
      NoLeftover (do return .instruction (← decoder) : Decoder Operation) :=
    fun h => .bind h fun _ => .pure _
  cases layout with
  | plain i => exact .pure _
  | shuffle op => exact .pure _
  | arithmetic op kind => exact .pure _
  | negate kind => exact .pure _
  | convert source target => exact .pure _
  | byteConstant => exact .bind noLeftover_i8 fun _ => .pure _
  | shortConstant => exact .bind noLeftover_i16 fun _ => .pure _
  | poolConstant longIndex wideValue =>
      cases longIndex with
      | false => exact .bind (.map noLeftover_u8) fun _ => hdone (noLeftover_poolConstant _ _)
      | true => exact .bind noLeftover_u16 fun _ => hdone (noLeftover_poolConstant _ _)
  | load kind => exact .bind noLeftover_u8 fun _ => .pure _
  | store kind => exact .bind noLeftover_u8 fun _ => .pure _
  | increment => exact .bind noLeftover_u8 fun _ => .bind noLeftover_i8 fun _ => .pure _
  | ret => exact .bind noLeftover_u8 fun _ => .pure _
  | jump jump longDistance =>
      cases longDistance with
      | false => exact .bind noLeftover_shortTarget fun _ => .pure _
      | true => exact .bind noLeftover_longTarget fun _ => .pure _
  | tableSwitch => exact hdone noLeftover_tableSwitch
  | lookupSwitch => exact hdone noLeftover_lookupSwitch
  | field use => exact .bind noLeftover_u16 fun _ => .bind (noLeftover_ofPool _) fun _ => .pure _
  | invoke kind => exact hdone (noLeftover_invocation kind)
  | newObject =>
      refine .bind noLeftover_classRef fun type => ?_
      split
      · exact malformed_then _
      · exact .pure _
  | newArray => exact hdone noLeftover_newArray
  | newReferenceArray => exact .bind noLeftover_classRef fun _ => .pure _
  | newMultiArray => exact hdone noLeftover_newMultiArray
  | checkCast => exact .bind noLeftover_classRef fun _ => .pure _
  | instanceOf => exact .bind noLeftover_classRef fun _ => .pure _
  | wide => exact hdone noLeftover_wide

theorem noLeftover_instruction (length : InstructionLength) (layout : Layout) :
    NoLeftover (instruction site length layout) := by
  unfold instruction
  split
  · exact .bind (noLeftover_requireLength _) fun _ => noLeftover_operands layout
  · exact noLeftover_operands layout

end Decoder

theorem Site.noLeftover_decode (site : Site) (operands : List UInt8) :
    FindsNoLeftover (site.decode operands) := by
  unfold decode
  dsimp only
  split
  · exact .error trivial
  · split
    · rename_i hrun
      exact .error ((Decoder.noLeftover_instruction _ _).of_error hrun)
    · exact .ok _

namespace OperandStack

theorem noLeftover_peekAt (n : Nat) : NoLeftover (peekAt n) := by
  refine .get_bind fun stack => ?_
  split
  · exact .throw trivial
  · exact .pure _

theorem noLeftover_pop : NoLeftover pop := by
  refine .get_bind fun stack => ?_
  split
  · exact .throw trivial
  · exact fun _ _ => trivial

theorem noLeftover_popIf (expected : Subject) (accepts : StackItem → Bool) :
    NoLeftover (popIf expected accepts) := by
  refine .bind (noLeftover_peekAt 0) fun top => ?_
  split
  · exact noLeftover_pop
  · exact .throw trivial

theorem noLeftover_popNumeric (c : Category) : NoLeftover (popNumeric c) := noLeftover_popIf _ _

theorem noLeftover_popReference : NoLeftover popReference := noLeftover_popIf _ _

theorem noLeftover_popValue (c : Category) : NoLeftover (popValue c) := by
  cases c <;> exact noLeftover_popIf _ _

theorem noLeftover_reserve (slots : UInt16) : NoLeftover (reserve slots) := by
  refine .get_bind fun stack => ?_
  split
  · exact .throw trivial
  · exact .pure ()

theorem noLeftover_push (item : StackItem) : NoLeftover (push item) :=
  .bind (noLeftover_reserve _) fun _ _ _ => trivial

theorem noLeftover_pushAllReserved (items : List StackItem) : NoLeftover (pushAllReserved items) := by
  induction items with
  | nil => exact .pure ()
  | cons item rest ih =>
      refine .bind (fun stack _ => ?_) fun _ => ih
      unfold pushReserved
      split
      · trivial
      · exact trivial

theorem noLeftover_unchanged : NoLeftover unchanged := by
  refine .get_bind fun stack => ?_
  split
  · exact .throw trivial
  · exact .pure ()

theorem noLeftover_replaceWith (items : List StackItem) : NoLeftover (replaceWith items) := by
  refine .get_bind fun stack => ?_
  split
  · exact .throw trivial
  · exact fun _ _ => trivial

theorem noLeftover_merge (items : List StackItem) : NoLeftover (merge items) := by
  refine .get_bind fun stack => ?_
  split
  · rename_i hjoin
    exact .throw (blames_joinItems noLeftover _ _ _ hjoin)
  · exact fun _ _ => trivial

theorem noLeftover_popAll (widths : List Bool) : NoLeftover (popAll widths) := by
  induction widths with
  | nil => exact .pure []
  | cons wide rest ih =>
      have hitem : NoLeftover (popWidth wide) := by cases wide <;> exact noLeftover_popIf _ _
      exact .bind hitem fun _ => .bind ih fun _ => .pure _

end OperandStack

open OperandStack

theorem Shuffle.noLeftover_exchange (form : Shuffle) : NoLeftover form.exchange := by
  have hroom : NoLeftover form.op.checkRoom := by
    cases form.op with
    | pop | pop2 | swap => exact .pure ()
    | _ => exact noLeftover_reserve _
  exact .bind (noLeftover_popAll _) fun _ => .bind (noLeftover_popAll _) fun _ =>
    .bind hroom fun _ => .bind (noLeftover_pushAllReserved _) fun _ => .pure _

theorem ShuffleOp.noLeftover_run (op : ShuffleOp) : NoLeftover op.run := by
  have hchoice : ∀ (n : Nat) {onWide onNarrow : StackOp Shuffle}, NoLeftover onWide →
      NoLeftover onNarrow →
      NoLeftover (do if (← peekAt n).isWide then onWide else onNarrow : StackOp Shuffle) := by
    intro n onWide onNarrow hwide hnarrow
    refine .bind (noLeftover_peekAt n) fun top => ?_
    split
    · exact hwide
    · exact hnarrow
  have hnarrow : ∀ (n : Nat) {next : StackOp Shuffle}, NoLeftover next →
      NoLeftover (do
        let item ← peekAt n
        if item.isWide then throw (.mismatch .narrowValue item.subject) else next : StackOp Shuffle) := by
    intro n next hnext
    refine .bind (noLeftover_peekAt n) fun item => ?_
    split
    · exact .throw trivial
    · exact hnext
  cases op with
  | pop => rw [run_pop]; exact Shuffle.noLeftover_exchange _
  | dup => rw [run_dup]; exact Shuffle.noLeftover_exchange _
  | dupX1 => rw [run_dupX1]; exact Shuffle.noLeftover_exchange _
  | swap => rw [run_swap]; exact Shuffle.noLeftover_exchange _
  | pop2 =>
      rw [run_pop2]
      exact hchoice 0 (Shuffle.noLeftover_exchange _) (Shuffle.noLeftover_exchange _)
  | dup2 =>
      rw [run_dup2]
      exact hchoice 0 (Shuffle.noLeftover_exchange _) (Shuffle.noLeftover_exchange _)
  | dup2X1 =>
      rw [run_dup2X1]
      exact hchoice 0 (Shuffle.noLeftover_exchange _) (Shuffle.noLeftover_exchange _)
  | dupX2 =>
      rw [run_dupX2]
      exact hnarrow 0 (hchoice 1 (Shuffle.noLeftover_exchange _) (Shuffle.noLeftover_exchange _))
  | dup2X2 =>
      rw [run_dup2X2]
      exact hchoice 0 (hchoice 1 (Shuffle.noLeftover_exchange _) (Shuffle.noLeftover_exchange _))
        (hnarrow 1 (hchoice 2 (Shuffle.noLeftover_exchange _) (Shuffle.noLeftover_exchange _)))

section Machine

variable {α : Type} (s : Setting)

theorem noLeftover_onStack {op : StackOp α} (h : NoLeftover op) : NoLeftover (MachineOp.onStack op) := by
  intro machine _
  unfold MachineOp.onStack
  split
  · trivial
  · rename_i hrun
    exact h.of_error hrun

theorem noLeftover_ofExcept {result : Except CodeFault α} (h : FindsNoLeftover result) :
    NoLeftover (MachineOp.ofExcept result) := by
  cases result with
  | ok value => exact .pure value
  | error fault => exact .throw (h fault rfl)

theorem noLeftover_putOn (item : StackItem) : NoLeftover (MachineOp.onStack (push item)) :=
  noLeftover_onStack (noLeftover_push item)

theorem noLeftover_takeNumber (c : Category) : NoLeftover (MachineOp.onStack (popNumeric c)) :=
  noLeftover_onStack (noLeftover_popNumeric c)

theorem noLeftover_takeReference : NoLeftover (MachineOp.onStack popReference) :=
  noLeftover_onStack noLeftover_popReference

theorem noLeftover_leave : NoLeftover (MachineOp.onStack OperandStack.unchanged) :=
  noLeftover_onStack noLeftover_unchanged

namespace Setting

theorem noLeftover_load (kind : ValueKind) (index : UInt16) : NoLeftover (s.load kind index) :=
  .get_bind fun _ => .bind (noLeftover_ofExcept (Locals.blames_load noLeftover _ _ _)) fun _ =>
    .bind (noLeftover_ofExcept (blames_checkBinding noLeftover _ _ _ _)) fun _ => noLeftover_putOn _

theorem noLeftover_popStored (kind : ValueKind) : NoLeftover (popStored kind) := by
  cases kind <;> exact noLeftover_popIf _ _

theorem noLeftover_store (kind : ValueKind) (index : UInt16) : NoLeftover (s.store kind index) := by
  refine .bind (noLeftover_onStack (noLeftover_popStored kind)) fun stored => .get_bind fun machine => ?_
  refine .bind (noLeftover_ofExcept (Locals.blames_store noLeftover _ _ _)) fun locals => ?_
  refine .bind (fun _ _ => trivial) fun _ => ?_
  split
  · exact noLeftover_ofExcept (blames_checkBinding noLeftover _ _ _ _)
  · exact .pure ()

theorem noLeftover_arrayLoad (kind : ElementKind) : NoLeftover (s.arrayLoad kind) :=
  .bind (noLeftover_takeNumber _) fun _ => .bind noLeftover_takeReference fun _ =>
    .bind (noLeftover_ofExcept (blames_elementType noLeftover _ _)) fun _ => noLeftover_putOn _

theorem noLeftover_arrayStore (kind : ElementKind) : NoLeftover (Setting.arrayStore kind) :=
  .bind (noLeftover_onStack (noLeftover_popValue _)) fun _ => .bind (noLeftover_takeNumber _) fun _ =>
    .bind noLeftover_takeReference fun _ => .discard (noLeftover_ofExcept (blames_elementType noLeftover _ _))

theorem noLeftover_binary (kind result : NumericKind) : NoLeftover (s.binary kind result) :=
  .bind (noLeftover_takeNumber _) fun _ => .bind (noLeftover_takeNumber _) fun _ => noLeftover_putOn _

theorem noLeftover_unary (kind result : NumericKind) : NoLeftover (s.unary kind result) :=
  .bind (noLeftover_takeNumber _) fun _ => noLeftover_putOn _

theorem noLeftover_shift (kind : NumericKind) : NoLeftover (s.shift kind) :=
  .bind (noLeftover_takeNumber _) fun _ => .bind (noLeftover_takeNumber _) fun _ => noLeftover_putOn _

theorem noLeftover_increment (index : UInt16) : NoLeftover (s.increment index) :=
  .get_bind fun _ => .bind (noLeftover_ofExcept (Locals.blames_load noLeftover _ _ _)) fun _ =>
    .bind (noLeftover_ofExcept (blames_checkBinding noLeftover _ _ _ _)) fun _ => noLeftover_leave

theorem noLeftover_returnValue (kind : Option ValueKind) : NoLeftover (s.returnValue kind) := by
  unfold returnValue
  dsimp only
  split
  · exact noLeftover_leave
  · split
    · exact .discard (noLeftover_onStack (noLeftover_popValue _))
    · exact .throw trivial
  · exact .throw trivial

theorem noLeftover_popOf (type : FieldType) : NoLeftover (popOf type) := .discard (noLeftover_popValue _)

theorem noLeftover_popAllOf (types : List FieldType) : NoLeftover (popAllOf types) := by
  induction types with
  | nil => exact .pure ()
  | cons type rest ih => exact .bind (noLeftover_popOf type) fun _ => ih

theorem noLeftover_popCounts (count : Nat) : NoLeftover (popCounts count) := by
  induction count with
  | zero => exact .pure ()
  | succ count ih => exact .bind (noLeftover_popNumeric .int) fun _ => ih

theorem noLeftover_invoke (kind : InvokeKind) (method : MethodRef) : NoLeftover (s.invoke kind method) := by
  have htaken : ∀ returned : MachineOp Unit, NoLeftover returned → NoLeftover (do
      popAllOf method.descriptor.parameters.reverse
      if kind ≠ .static then discard OperandStack.popReference
      returned : MachineOp Unit) := by
    intro returned hreturned
    refine .bind (noLeftover_onStack (noLeftover_popAllOf _)) fun _ => ?_
    split
    · exact .bind (.discard noLeftover_takeReference) fun _ => hreturned
    · exact hreturned
  unfold invoke
  cases method.descriptor.returnType with
  | void => exact htaken _ (.pure ())
  | value type => exact htaken _ (noLeftover_putOn _)

theorem noLeftover_newReferenceArray (element : ClassName) : NoLeftover (s.newReferenceArray element) := by
  unfold newReferenceArray
  split
  · exact .throw trivial
  · exact .bind (noLeftover_takeNumber _) fun _ => noLeftover_putOn _

theorem noLeftover_arrayLength : NoLeftover s.arrayLength := by
  refine .bind noLeftover_takeReference fun array => ?_
  dsimp only
  split
  · split
    · exact .throw_bind trivial
    · exact noLeftover_putOn _
  · exact noLeftover_putOn _

end Setting

theorem Instruction.noLeftover_perform (i : Instruction) : NoLeftover (i.perform s) := by
  cases i with
  | nop | goto _ => exact noLeftover_leave
  | constant _ | ldc _ | jsr _ | getStatic _ | newObject _ => exact noLeftover_putOn _
  | load kind index => exact s.noLeftover_load kind index
  | store kind index => exact s.noLeftover_store kind index
  | arrayLoad kind => exact s.noLeftover_arrayLoad kind
  | arrayStore kind => exact Setting.noLeftover_arrayStore kind
  | shuffle form => exact .discard (noLeftover_onStack form.op.noLeftover_run)
  | arithmetic _ kind _ | bitwise _ kind => exact s.noLeftover_binary kind kind
  | negate kind _ => exact s.noLeftover_unary kind kind
  | shift _ kind => exact s.noLeftover_shift kind
  | increment index _ => exact s.noLeftover_increment index
  | convert source target _ => exact s.noLeftover_unary source target
  | truncate _ => exact s.noLeftover_unary .int .int
  | longCompare => exact s.noLeftover_binary .long .int
  | floatingCompare kind _ => exact s.noLeftover_binary kind .int
  | ifZero _ _ | ifIntCompare _ _ | tableSwitch _ _ _ _ | lookupSwitch _ _ =>
      exact noLeftover_onStack (Setting.noLeftover_popCounts _)
  | ifReferenceCompare _ _ =>
      exact .bind noLeftover_takeReference fun _ => .bind noLeftover_takeReference fun _ => .pure ()
  | ifNull _ _ | athrow | monitorEnter | monitorExit => exact .discard noLeftover_takeReference
  | ret index =>
      exact .get_bind fun _ => .bind (noLeftover_ofExcept (Locals.blames_load noLeftover _ _ _)) fun _ =>
        noLeftover_leave
  | returnValue kind => exact s.noLeftover_returnValue kind
  | putStatic field => exact noLeftover_onStack (Setting.noLeftover_popOf _)
  | getField field => exact .bind noLeftover_takeReference fun _ => noLeftover_putOn _
  | putField field =>
      exact .bind (noLeftover_onStack (Setting.noLeftover_popOf _)) fun _ =>
        .bind noLeftover_takeReference fun _ => .pure ()
  | invoke kind method => exact s.noLeftover_invoke kind method
  | newArray element => exact .bind (noLeftover_takeNumber _) fun _ => noLeftover_putOn _
  | newReferenceArray element => exact s.noLeftover_newReferenceArray element
  | arrayLength => exact s.noLeftover_arrayLength
  | checkCast _ | instanceOf _ => exact .bind noLeftover_takeReference fun _ => noLeftover_putOn _
  | newMultiArray type dimensions =>
      exact .bind (noLeftover_onStack (Setting.noLeftover_popCounts _)) fun _ => noLeftover_putOn _

theorem Operation.noLeftover_perform (op : Operation) : NoLeftover (op.perform s) := by
  cases op with
  | instruction i => exact .bind (i.noLeftover_perform s) fun _ => .pure i
  | shuffle op => exact .bind (noLeftover_onStack op.noLeftover_run) fun _ => .pure _

end Machine

namespace Pass

variable {p : Premises}

theorem noLeftover_adopt (arrival : Arrival) : NoLeftover (adopt arrival) :=
  .bind (noLeftover_onStack (noLeftover_replaceWith _)) fun _ _ _ => trivial

theorem noLeftover_enterAfterTransfer (p : Premises) (pass : Pass) (pc : UInt16) :
    NoLeftover (enterAfterTransfer p pass pc) :=
  .bind (noLeftover_ofExcept (blames_arrivalAfterTransfer noLeftover p pass pc)) noLeftover_adopt

theorem noLeftover_enterByFallThrough (p : Premises) (pass : Pass) (pc : UInt16) :
    NoLeftover (enterByFallThrough p pass pc) := by
  have hjoin : NoLeftover (joinAt p pass pc) := by
    unfold joinAt
    split
    · exact .get_bind fun _ => .bind (noLeftover_ofExcept (blames_checkShape noLeftover _ _)) fun _ =>
        .bind (noLeftover_ofExcept (p.blames_arrivalOf noLeftover _)) noLeftover_adopt
    · split
      · exact .bind (noLeftover_onStack (noLeftover_merge _)) fun _ _ _ => trivial
      · exact .pure ()
  refine .bind hjoin fun _ => ?_
  split
  · exact .get_bind fun _ => noLeftover_ofExcept (blames_checkShape noLeftover _ _)
  · exact .pure ()

theorem noLeftover_enter (pass : Pass) (pc : UInt16) : FindsNoLeftover (pass.enter p pc) := by
  have hentering : NoLeftover
      (if pass.fallsThrough then enterByFallThrough p pass pc else enterAfterTransfer p pass pc) := by
    split
    · exact noLeftover_enterByFallThrough p pass pc
    · exact noLeftover_enterAfterTransfer p pass pc
  unfold enter
  dsimp only
  split
  · rename_i hrun
    exact .error (hentering.of_error hrun)
  · exact .ok _

theorem noLeftover_performAt (pc : UInt16) (decoded : Decoded) (before : Machine) :
    FindsNoLeftover (performAt p pc decoded before) := by
  unfold performAt
  split
  · rename_i hrun
    exact .error ((decoded.operation.noLeftover_perform _).of_error hrun)
  · exact .ok _

theorem noLeftover_handOn (i : Instruction) (after : Machine) : FindsNoLeftover (handOn p i after) := by
  unfold handOn
  split
  · split
    · rename_i hpop
      exact .error ((noLeftover_popIf _ _).of_error hpop)
    · exact .ok _
  · exact .ok _

theorem noLeftover_step {pass : Pass} {place : ListedPlace} (hplace : FindsNoLeftover place.decoded) :
    FindsNoLeftover (pass.step p place) :=
  .bind (noLeftover_enter _ _) fun _ _ => .bind hplace fun _ _ =>
    .bind (noLeftover_performAt _ _ _) fun _ _ =>
      .bind (.foldlM (fun branched target => blames_branch noLeftover _ branched target) pass) fun _ _ =>
        .bind (noLeftover_handOn _ _) fun _ _ => .ok _

end Pass

end ClassFile
