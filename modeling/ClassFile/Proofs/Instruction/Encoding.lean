import ClassFile.Instruction.Operands
import ClassFile.Proofs.Descriptor.Method
import ClassFile.Proofs.Reading

/-! The encodings of instructions, as the class file format gives them. They are told by the instruction:
opcodes are counted from the first one of a family, and nothing here looks into the table that code is
decoded with. That each layout of the table stands at the opcode of its instructions is checked row by
row. -/

namespace ClassFile

section Opcodes

/-- The opcode of the constant instructions, for the values that have one of their own. -/
def Constant.soleOpcode? : Constant → Option UInt8
  | .null => some 0x01
  | .int value => if -1 ≤ value ∧ value ≤ 5 then some (UInt8.ofNat (3 + value.toInt).toNat) else none
  | .long value => if value = 0 ∨ value = 1 then some (UInt8.ofNat (9 + value.toInt).toNat) else none
  | .float bits =>
    if bits = 0 then some 0x0b
    else if bits = 0x3f800000 then some 0x0c
    else if bits = 0x40000000 then some 0x0d
    else none
  | .double bits =>
    if bits = 0 then some 0x0e else if bits = 0x3ff0000000000000 then some 0x0f else none

def ShuffleOp.opcode : ShuffleOp → UInt8
  | .pop => 0x57
  | .pop2 => 0x58
  | .dup => 0x59
  | .dupX1 => 0x5a
  | .dupX2 => 0x5b
  | .dup2 => 0x5c
  | .dup2X1 => 0x5d
  | .dup2X2 => 0x5e
  | .swap => 0x5f

/-- The opcode at a place of a family, whose first one is given. -/
def opcodeAt (first place : Nat) : Option UInt8 := some (UInt8.ofNat (first + place))

/-- The opcode of an instruction that consists of nothing else. -/
def Instruction.soleOpcode? : Instruction → Option UInt8
  | .nop => some 0x00
  | .constant value => value.soleOpcode?
  | .load kind index =>
    if index < 4 then opcodeAt 0x1a (4 * ValueKind.all.idxOf kind + index.toNat) else none
  | .arrayLoad kind => opcodeAt 0x2e (ElementKind.all.idxOf kind)
  | .store kind index =>
    if index < 4 then opcodeAt 0x3b (4 * ValueKind.all.idxOf kind + index.toNat) else none
  | .arrayStore kind => opcodeAt 0x4f (ElementKind.all.idxOf kind)
  | .shuffle form => some form.op.opcode
  | .arithmetic op kind _ =>
    opcodeAt 0x60 (4 * ArithmeticOp.all.idxOf op + NumericKind.all.idxOf kind)
  | .negate kind _ => opcodeAt 0x74 (NumericKind.all.idxOf kind)
  | .shift op kind =>
    if kind.isFloating then none
    else opcodeAt 0x78 (2 * ShiftOp.all.idxOf op + NumericKind.all.idxOf kind)
  | .bitwise op kind =>
    if kind.isFloating then none
    else opcodeAt 0x7e (2 * BitwiseOp.all.idxOf op + NumericKind.all.idxOf kind)
  | .convert source target _ =>
    if source = target then none
    else opcodeAt 0x85 (3 * NumericKind.all.idxOf source + (NumericKind.all.erase source).idxOf target)
  | .truncate .byte => some 0x91
  | .truncate .char => some 0x92
  | .truncate .short => some 0x93
  | .longCompare => some 0x94
  | .floatingCompare .float nanResult =>
    if nanResult = -1 then some 0x95 else if nanResult = 1 then some 0x96 else none
  | .floatingCompare .double nanResult =>
    if nanResult = -1 then some 0x97 else if nanResult = 1 then some 0x98 else none
  | .returnValue (some kind) => opcodeAt 0xac (ValueKind.all.idxOf kind)
  | .returnValue none => some 0xb1
  | .arrayLength => some 0xbe
  | .athrow => some 0xbf
  | .monitorEnter => some 0xc2
  | .monitorExit => some 0xc3
  | _ => none

/-- The opcode of an instruction that names a local variable and nothing else, and the variable. -/
def Instruction.localOpcode? : Instruction → Option (UInt8 × UInt16)
  | .load kind index => some (UInt8.ofNat (0x15 + ValueKind.all.idxOf kind), index)
  | .store kind index => some (UInt8.ofNat (0x36 + ValueKind.all.idxOf kind), index)
  | .ret index => some (0xa9, index)
  | _ => none

/-- The opcode with a distance of two bytes. -/
def Jump.opcode : Jump → UInt8
  | .ifZero condition => UInt8.ofNat (0x99 + Condition.all.idxOf condition)
  | .ifIntCompare condition => UInt8.ofNat (0x9f + Condition.all.idxOf condition)
  | .ifReferenceCompare equal => if equal then 0xa5 else 0xa6
  | .goto => 0xa7
  | .jsr => 0xa8
  | .ifNull null => if null then 0xc6 else 0xc7

/-- The opcode with a distance of four bytes. -/
def Jump.longOpcode? : Jump → Option UInt8
  | .goto => some 0xc8
  | .jsr => some 0xc9
  | _ => none

def FieldUse.opcode : FieldUse → UInt8
  | .getStatic => 0xb2
  | .putStatic => 0xb3
  | .getField => 0xb4
  | .putField => 0xb5

def InvokeKind.opcode : InvokeKind → UInt8
  | .virtual => 0xb6
  | .special => 0xb7
  | .static => 0xb8
  | .interface => 0xb9

/-- The opcode of an instruction that names a class and nothing else, and the class. -/
def Instruction.classOpcode? : Instruction → Option (UInt8 × ClassName)
  | .newObject type => some (0xbb, type)
  | .newReferenceArray element => some (0xbd, element)
  | .checkCast type => some (0xc0, type)
  | .instanceOf type => some (0xc1, type)
  | _ => none

/-- The code of the arrays of a primitive type. -/
def Primitive.arrayCode : Primitive → UInt8
  | .boolean => 4
  | .char => 5
  | .float => 6
  | .double => 7
  | .byte => 8
  | .short => 9
  | .int => 10
  | .long => 11

/-- The opcodes that class files of a version may use: all up to the last one but `invokedynamic`, and no
subroutines from version 51 on. -/
def Version.Supports (version : Version) (opcode : UInt8) : Prop :=
  opcode ≤ 0xc9 ∧ opcode ≠ 0xba ∧
    (51 ≤ version.major → opcode ≠ 0xa8 ∧ opcode ≠ 0xa9 ∧ opcode ≠ 0xc9)

end Opcodes

/-- The bytes that write the distance from an offset to a target. -/
def distanceBytes (width pc : Nat) (target : UInt16) : List UInt8 :=
  signedBytes width (target.toNat - pc)

@[simp] theorem length_distanceBytes (width pc : Nat) (target : UInt16) :
    (distanceBytes width pc target).length = width := length_signedBytes _ _

/-- The bytes that write a key of a switch and its target. -/
def pairBytes (pc : Nat) (pair : Int32 × UInt16) : List UInt8 :=
  signedBytes 4 pair.1.toInt ++ distanceBytes 4 pc pair.2

/-- The bytes that an instruction at an offset may be written with. -/
inductive Encodes (pool : Pool) (version : Version) (pc : Nat) : Instruction → List UInt8 → Prop
  | sole {i : Instruction} {opcode : UInt8} (hopcode : i.soleOpcode? = some opcode) :
      Encodes pool version pc i [opcode]
  | byteConstant (value : Int8) :
      Encodes pool version pc (.constant (.int value.toInt32)) (0x10 :: signedBytes 1 value.toInt)
  | shortConstant (value : Int16) :
      Encodes pool version pc (.constant (.int value.toInt32)) (0x11 :: signedBytes 2 value.toInt)
  | poolConstant {index : UInt8} {value : Loadable} (hvalue : pool.loadableAt index.toUInt16 = .ok value)
      (hnarrow : value.type.slotCount = 1) : Encodes pool version pc (.ldc value) [0x12, index]
  | longPoolConstant {index : UInt16} {value : Loadable} (hvalue : pool.loadableAt index = .ok value)
      (hnarrow : value.type.slotCount = 1) :
      Encodes pool version pc (.ldc value) (0x13 :: bigEndianBytes 2 index.toNat)
  | widePoolConstant {index : UInt16} {value : Loadable} (hvalue : pool.loadableAt index = .ok value)
      (hwide : value.type.slotCount = 2) :
      Encodes pool version pc (.ldc value) (0x14 :: bigEndianBytes 2 index.toNat)
  | localVariable {i : Instruction} {opcode index : UInt8}
      (hopcode : i.localOpcode? = some (opcode, index.toUInt16)) :
      Encodes pool version pc i [opcode, index]
  | wideLocalVariable {i : Instruction} {opcode : UInt8} {index : UInt16}
      (hopcode : i.localOpcode? = some (opcode, index)) :
      Encodes pool version pc i (0xc4 :: opcode :: bigEndianBytes 2 index.toNat)
  | increment (index : UInt8) (delta : Int8) :
      Encodes pool version pc (.increment index.toUInt16 delta.toInt16)
        (0x84 :: index :: signedBytes 1 delta.toInt)
  | wideIncrement (index : UInt16) (delta : Int16) :
      Encodes pool version pc (.increment index delta)
        (0xc4 :: 0x84 :: bigEndianBytes 2 index.toNat ++ signedBytes 2 delta.toInt)
  | jump (jump : Jump) {target : UInt16} (hnear : -0x8000 ≤ (target.toNat - pc : Int))
      (hnear' : (target.toNat - pc : Int) < 0x8000) :
      Encodes pool version pc (jump.to target) (jump.opcode :: distanceBytes 2 pc target)
  | longJump {jump : Jump} {opcode : UInt8} (hopcode : jump.longOpcode? = some opcode) (target : UInt16) :
      Encodes pool version pc (jump.to target) (opcode :: distanceBytes 4 pc target)
  | tableSwitch {padding : Nat} {default : UInt16} {low high : Int32} {targets : List UInt16}
      (hpadding : padding < 4) (haligned : (pc + 1 + padding) % 4 = 0) (hrange : low ≤ high)
      (hcount : (targets.length : Int) = high.toInt - low.toInt + 1) :
      Encodes pool version pc (.tableSwitch default low high targets)
        (0xaa :: List.replicate padding 0 ++ distanceBytes 4 pc default ++ signedBytes 4 low.toInt
          ++ signedBytes 4 high.toInt ++ targets.flatMap (distanceBytes 4 pc))
  | lookupSwitch {padding : Nat} {default : UInt16} {pairs : List (Int32 × UInt16)}
      (hpadding : padding < 4) (haligned : (pc + 1 + padding) % 4 = 0)
      (hkeys : pairs.Pairwise fun a b => a.1 < b.1) :
      Encodes pool version pc (.lookupSwitch default pairs)
        (0xab :: List.replicate padding 0 ++ distanceBytes 4 pc default
          ++ signedBytes 4 pairs.length ++ pairs.flatMap (pairBytes pc))
  | field (use : FieldUse) {index : UInt16} {field : FieldRef} (hfield : pool.fieldAt index = .ok field) :
      Encodes pool version pc (use.of field) (use.opcode :: bigEndianBytes 2 index.toNat)
  | invoke {kind : InvokeKind} {index : UInt16} {method : MethodRef} (hkind : kind ≠ .interface)
      (hmethod : pool.methodAt index = .ok method)
      (howner : method.ofInterface = true → kind ≠ .virtual ∧ 52 ≤ version.major) :
      Encodes pool version pc (.invoke kind method) (kind.opcode :: bigEndianBytes 2 index.toNat)
  | invokeInterface {index : UInt16} {count : UInt8} {method : MethodRef}
      (hmethod : pool.interfaceMethodAt index = .ok method)
      (hcount : count.toNat = slotCount method.descriptor.parameters + 1) :
      Encodes pool version pc (.invoke .interface method)
        (0xb9 :: bigEndianBytes 2 index.toNat ++ [count, 0])
  | classOperand {i : Instruction} {opcode : UInt8} {index : UInt16} {type : ClassName}
      (hopcode : i.classOpcode? = some (opcode, type)) (htype : pool.classAt index = .ok type) :
      Encodes pool version pc i (opcode :: bigEndianBytes 2 index.toNat)
  | newArray (element : Primitive) :
      Encodes pool version pc (.newArray element) [0xbc, element.arrayCode]
  | newMultiArray {index : UInt16} {type : ClassName} {dimensions : UInt8}
      (htype : pool.classAt index = .ok type) (hpositive : 0 < dimensions)
      (hdimensions : dimensions ≤ type.type.dimensions) :
      Encodes pool version pc (.newMultiArray type dimensions)
        (0xc5 :: bigEndianBytes 2 index.toNat ++ [dimensions])

/-- The opcodes in the bytes of an instruction: the first byte, and behind `wide` the second one as well. -/
def opcodesIn : List UInt8 → List UInt8
  | [] => []
  | opcode :: operands => opcode :: if opcode = 0xc4 then operands.take 1 else []

/-- The opcode that the instructions of a layout are written with. -/
def Layout.opcode? : Layout → Option UInt8
  | .plain i => i.soleOpcode?
  | .shuffle op => some op.opcode
  | .arithmetic op kind => (Instruction.arithmetic op kind false).soleOpcode?
  | .negate kind => (Instruction.negate kind false).soleOpcode?
  | .convert source target => (Instruction.convert source target false).soleOpcode?
  | .byteConstant => some 0x10
  | .shortConstant => some 0x11
  | .poolConstant longIndex wideValue =>
    match longIndex, wideValue with
    | false, false => some 0x12
    | true, false => some 0x13
    | true, true => some 0x14
    | false, true => none
  | .load kind => (Instruction.load kind 0).localOpcode?.map Prod.fst
  | .store kind => (Instruction.store kind 0).localOpcode?.map Prod.fst
  | .increment => some 0x84
  | .ret => some 0xa9
  | .jump branch longDistance => if longDistance then branch.longOpcode? else some branch.opcode
  | .tableSwitch => some 0xaa
  | .lookupSwitch => some 0xab
  | .field use => some use.opcode
  | .invoke kind => some kind.opcode
  | .newObject => some 0xbb
  | .newArray => some 0xbc
  | .newReferenceArray => some 0xbd
  | .checkCast => some 0xc0
  | .instanceOf => some 0xc1
  | .wide => some 0xc4
  | .newMultiArray => some 0xc5

/-- How a layout may stand at an opcode of the table. -/
def Layout.StandsAt (opcode : UInt8) (layout : Layout) : Prop :=
  layout.opcode? = some opcode ∧ opcode ≤ 0xc9 ∧ opcode ≠ 0xba ∧
    (layout.isSubroutine = false → opcode ≠ 0xa8 ∧ opcode ≠ 0xa9 ∧ opcode ≠ 0xc9)

instance (opcode : UInt8) (layout : Layout) : Decidable (layout.StandsAt opcode) :=
  inferInstanceAs (Decidable (_ ∧ _))

namespace Opcode

variable {version : Version} {opcode : UInt8} {layout : Layout}

theorem standsAt_row : ∀ row ∈ table.toList.zipIdx, ∀ layout ∈ row.1.2,
    layout.StandsAt (UInt8.ofNat row.2) := by
  decide +kernel

theorem standsAt_layout? (h : layout? opcode = some layout) : layout.StandsAt opcode := by
  obtain ⟨row, hrow, hlayout⟩ := Option.bind_eq_some_iff.mp h
  rw [← Array.getElem?_toList] at hrow
  have hmem : (row, opcode.toNat) ∈ table.toList.zipIdx := List.mem_zipIdx_iff_getElem?.mpr hrow
  have hstands := standsAt_row _ hmem layout hlayout
  rwa [UInt8.ofNat_toNat] at hstands

theorem layout?_wide : layout? 0xc4 = some .wide := by
  decide +kernel

theorem supports_of_layout? (h : layout? opcode = some layout)
    (hsubroutine : layout.isSubroutine = true → Profile.ofVersion version ≠ .modern) :
    version.Supports opcode := by
  obtain ⟨_, hlast, hdynamic, hplain⟩ := standsAt_layout? h
  refine ⟨hlast, hdynamic, fun hmodern => hplain ?_⟩
  have hprofile : Profile.ofVersion version = .modern := if_pos (decide_eq_true hmodern)
  cases hlayout : layout.isSubroutine with
  | false => rfl
  | true => exact absurd hprofile (hsubroutine hlayout)

/-- The opcodes that are decoded are in the table, and supported. -/
theorem layout_ofByte (h : (ofByte (Profile.ofVersion version) opcode).layout = .ok layout) :
    (ofByte (Profile.ofVersion version) opcode).length = layout.length ∧
      layout? opcode = some layout ∧ version.Supports opcode := by
  unfold ofByte at h ⊢
  cases hrow : table[opcode.toNat]? with
  | none =>
      rw [hrow] at h
      dsimp only at h
      split at h
      · cases h
      · split at h
        · cases h
        · split at h <;> cases h
  | some row =>
      obtain ⟨mnemonic, found⟩ := row
      rw [hrow] at h
      dsimp only
      cases found with
      | none => cases h
      | some found =>
          simp only [ofRow] at h
          split at h
          · cases h
          · rename_i hallowed
            cases h
            have hlayout : layout? opcode = some layout := by rw [layout?, hrow]; rfl
            refine ⟨rfl, hlayout, supports_of_layout? hlayout fun hsubroutine hmodern => hallowed ?_⟩
            rw [hsubroutine, hmodern]
            rfl

end Opcode

end ClassFile
