import ClassFile.Proofs.Instruction.Encoding
import ClassFile.Proofs.Verification.Performing

/-! Decoding an instruction reads one of its encodings. Before any byte of the operands is read, the length
of the instruction was checked against the code, so that reading never runs out of bytes: the number of bytes
that are known to be left is carried along with those that were read. -/

namespace ClassFile

open Cursor

/-- Reading the operands of an instruction behind `front`, with `room` more bytes there, comes to a result
that has a property, or to a foreseen fault. -/
abbrev Decodes {α : Type} (operands front : List UInt8) (room : Nat) (decoder : Decoder α)
    (after : α → Cursor → Prop) : Prop :=
  Yields (Stands operands front room) decoder after fun fault _ => fault.Foreseen

/-- The bytes behind the opcode of an instruction reach to the end of the code. -/
def Site.Covers (site : Site) (operands : List UInt8) : Prop :=
  site.codeLength.toNat ≤ site.pc.toNat + 1 + operands.length

/-- Bytes are an encoding of an instruction that uses supported opcodes. -/
structure Site.Spells (site : Site) (i : Instruction) (bytes : List UInt8) : Prop where
  encodes : Encodes site.pool site.method.version site.pc.toNat i bytes
  supported : ∀ opcode ∈ opcodesIn bytes, site.method.version.Supports opcode

theorem CodeFault.foreseen_invalidOpcode (opcode : UInt8) (reason : OpcodeFault) :
    (invalidOpcode opcode reason).Foreseen := ⟨nofun, nofun⟩

/-- The instructions that an operation may turn out to be. -/
def Operation.Becomes : Operation → Instruction → Prop
  | .instruction i, j => j = i
  | .shuffle op, j => ∃ form : Shuffle, j = .shuffle form ∧ form.op = op

/-- The number of operand bytes that are known from the layout alone. -/
def Layout.room (layout : Layout) : Nat :=
  match layout.length with
  | .fixed bytes => bytes.toNat - 1
  | .variable => 0

namespace Decoder

variable {site : Site} {operands front : List UInt8} {room : Nat}

theorem yields_requireLength (hcovers : site.Covers operands) (length : Nat) :
    Decodes operands front room (requireLength site length)
      fun _ => Stands operands front (length - 1 - front.length) := by
  unfold requireLength
  dsimp only
  split
  · exact .throw fun _ _ => ⟨nofun, nofun⟩
  · rename_i hlength
    refine .pure fun c hc => ⟨hc.data, hc.position, ?_⟩
    have hdata := congrArg List.length hc.data
    rw [List.length_append] at hdata
    unfold Site.Covers at hcovers
    omega

theorem yields_malformed {α : Type} {before : Cursor → Prop} {after : α → Cursor → Prop}
    (fault : OperandFault) :
    Yields before (malformed site fault) after fun fault _ => fault.Foreseen :=
  .throw fun _ _ => CodeFault.foreseen_invalidOpcode _ _

theorem malformed_bind {α β : Type} {before : Cursor → Prop} {after : β → Cursor → Prop}
    (fault : OperandFault) {next : α → Decoder β} :
    Yields before (malformed site fault >>= next) after fun fault _ => fault.Foreseen :=
  .throw_bind fun _ _ => CodeFault.foreseen_invalidOpcode _ _

theorem yields_ofPool {α : Type} {before : Cursor → Prop} (result : Except Pool.Located α) :
    Yields before (ofPool result) (fun value c => result = .ok value ∧ before c)
      fun fault _ => fault.Foreseen := by
  cases result with
  | ok value => exact .pure fun _ hc => ⟨rfl, hc⟩
  | error located => exact .throw fun _ _ => ⟨nofun, nofun⟩

theorem yields_targetAt {before : Cursor → Prop} (distance : Int) :
    Yields before (targetAt site distance)
      (fun target c => (target.toNat - site.pc.toNat : Int) = distance ∧ before c)
      fun fault _ => fault.Foreseen := by
  unfold targetAt
  dsimp only
  split
  · exact .throw fun _ _ => ⟨nofun, nofun⟩
  · rename_i hwithin
    refine .pure fun _ hc => ⟨?_, hc⟩
    have hlength := site.codeLength.toNat_lt
    rw [UInt16.toNat_ofNat']
    omega

theorem yields_shortTarget :
    Decodes operands front (2 + room) (shortTarget site) fun target c =>
      (-0x8000 ≤ (target.toNat - site.pc.toNat : Int) ∧ (target.toNat - site.pc.toNat : Int) < 0x8000) ∧
        Stands operands (front ++ distanceBytes 2 site.pc.toNat target) room c := by
  refine .bind yields_i16 fun distance => .mono (yields_targetAt distance.toInt) (fun _ hc => hc) ?_
    fun _ _ hfault => hfault
  rintro target c ⟨htarget, hc⟩
  have hlow := distance.le_toInt
  have hhigh := distance.toInt_lt
  rw [distanceBytes, htarget]
  exact ⟨⟨hlow, hhigh⟩, hc⟩

theorem yields_longTarget :
    Decodes operands front (4 + room) (longTarget site) fun target =>
      Stands operands (front ++ distanceBytes 4 site.pc.toNat target) room := by
  refine .bind yields_i32 fun distance => .mono (yields_targetAt distance.toInt) (fun _ hc => hc) ?_
    fun _ _ hfault => hfault
  rintro target c ⟨htarget, hc⟩
  rwa [distanceBytes, htarget]

theorem yields_classRef :
    Decodes operands front (2 + room) (classRef site) fun type c =>
      ∃ index : UInt16, site.pool.classAt index = .ok type ∧
        Stands operands (front ++ bigEndianBytes 2 index.toNat) room c :=
  .bind yields_u16 fun index => .mono (yields_ofPool _) (fun _ hc => hc)
    (fun _ _ hc => ⟨index, hc⟩) fun _ _ hfault => hfault

theorem yields_padding (n : Nat) :
    Decodes operands front (n + room) (padding site n) fun _ =>
      Stands operands (front ++ List.replicate n 0) room := by
  induction n generalizing front with
  | zero => exact .pure fun c hc => by simpa using hc
  | succ n ih =>
      rw [show n + 1 + room = 1 + (n + room) by ring]
      refine .bind yields_u8 fun b => ?_
      split
      · exact malformed_bind _
      · rename_i hzero
        rw [not_not] at hzero
        subst hzero
        refine .mono ih (fun _ hc => hc) (fun _ c hc => ?_) fun _ _ hfault => hfault
        rwa [List.append_assoc, List.singleton_append, ← List.replicate_succ] at hc

/-- The bytes before the operands of a switch, without its opcode. -/
theorem paddingAt_aligns (pc : UInt16) :
    paddingAt pc < 4 ∧ (pc.toNat + 1 + paddingAt pc) % 4 = 0 := by
  unfold paddingAt
  omega

/-- Reading has come to an instruction and the end of the bytes that spell it. -/
def Writes (site : Site) (operands : List UInt8) (i : Instruction) (c : Cursor) : Prop :=
  ∃ front, Stands operands front 0 c ∧ site.Spells i (site.opcode :: front)

theorem writes_of_encodes {i : Instruction} {c : Cursor} (hc : Stands operands front 0 c)
    (hencodes : Encodes site.pool site.method.version site.pc.toNat i (site.opcode :: front))
    (hwide : site.opcode ≠ 0xc4) (hsupports : site.method.version.Supports site.opcode) :
    Writes site operands i c := by
  refine ⟨front, hc, hencodes, ?_⟩
  rw [opcodesIn, if_neg hwide]
  simpa using hsupports

theorem yields_tableSwitch (hcovers : site.Covers operands) (hopcode : site.opcode = 0xaa)
    (hsupports : site.method.version.Supports site.opcode) :
    Decodes operands [] 0 (tableSwitch site) (Writes site operands) := by
  obtain ⟨hpadding, haligned⟩ := paddingAt_aligns site.pc
  unfold tableSwitch
  refine .bind (yields_requireLength hcovers _) fun _ => ?_
  have hhead : 1 + paddingAt site.pc + 12 - 1 - ([] : List UInt8).length =
      paddingAt site.pc + (4 + (4 + (4 + 0))) := by
    rw [List.length_nil]
    omega
  rw [hhead]
  refine .bind (yields_padding _) fun _ => .bind yields_longTarget fun default => ?_
  refine .bind yields_i32 fun low => .bind yields_i32 fun high => ?_
  split
  · exact malformed_bind _
  · rename_i hrange
    refine .bind (yields_requireLength hcovers _) fun _ => ?_
    generalize hcount : (high.toInt - low.toInt + 1).toNat = count
    have hroom : 1 + paddingAt site.pc + 12 + 4 * count - 1 - ([] ++ List.replicate (paddingAt site.pc) 0
        ++ distanceBytes 4 site.pc.toNat default ++ signedBytes 4 low.toInt
        ++ signedBytes 4 high.toInt).length = 4 * count + 0 := by
      simp only [List.length_append, List.length_nil, List.length_replicate, length_distanceBytes,
        length_signedBytes]
      omega
    rw [hroom]
    refine .bind (yields_collect (fun _ _ => yields_longTarget) count) fun targets => ?_
    refine .pure fun c ⟨hlength, hc⟩ => writes_of_encodes hc ?_ (by rw [hopcode]; decide) hsupports
    rw [Int32.not_lt, Int32.le_iff_toInt_le] at hrange
    have hencodes : Encodes site.pool site.method.version site.pc.toNat
        (.tableSwitch default low high targets) _ :=
      .tableSwitch hpadding haligned (Int32.le_iff_toInt_le.mpr hrange) (by omega)
    simpa [hopcode] using hencodes

/-- The keys that were read so far decrease, since the last one comes first. -/
theorem yields_switchPairs {found : List (Int32 × UInt16)} (hfound : found.Pairwise fun a b => b.1 < a.1)
    (n : Nat) :
    Decodes operands (front ++ found.reverse.flatMap (pairBytes site.pc.toNat)) (8 * n + room)
      (switchPairs site found n) fun pairs c =>
        (pairs.length = found.length + n ∧ pairs.Pairwise fun a b => a.1 < b.1) ∧
          Stands operands (front ++ pairs.flatMap (pairBytes site.pc.toNat)) room c := by
  induction n generalizing found with
  | zero =>
      rw [Nat.mul_zero, Nat.zero_add]
      exact .pure fun c hc => ⟨⟨List.length_reverse, List.pairwise_reverse.mpr hfound⟩, hc⟩
  | succ n ih =>
      have hmore : ∀ key target, (found.head?.all fun previous => previous.1 < key) = true →
          Decodes operands (front ++ found.reverse.flatMap (pairBytes site.pc.toNat)
            ++ signedBytes 4 key.toInt ++ distanceBytes 4 site.pc.toNat target) (8 * n + room)
            (switchPairs site ((key, target) :: found) n) fun pairs c =>
              (pairs.length = found.length + (n + 1) ∧ pairs.Pairwise fun a b => a.1 < b.1) ∧
                Stands operands (front ++ pairs.flatMap (pairBytes site.pc.toNat)) room c := by
        intro key target hkey
        have hsorted : ((key, target) :: found).Pairwise fun a b => b.1 < a.1 := by
          refine .cons (fun a ha => ?_) hfound
          cases found with
          | nil => cases ha
          | cons previous earlier =>
              have hprevious : previous.1 < key := by simpa using hkey
              rcases List.mem_cons.mp ha with rfl | ha
              · exact hprevious
              · exact Int32.lt_trans ((List.pairwise_cons.mp hfound).1 a ha) hprevious
        refine .mono (ih hsorted) (fun c hc => ?_) (fun pairs c hpairs => ?_) fun _ _ hfault => hfault
        · simpa [pairBytes] using hc
        · obtain ⟨⟨hlength, hpairs⟩, hc⟩ := hpairs
          rw [List.length_cons] at hlength
          exact ⟨⟨by omega, hpairs⟩, hc⟩
      rw [show 8 * (n + 1) + room = 4 + (4 + (8 * n + room)) by ring]
      refine .bind yields_i32 fun key => .bind yields_longTarget fun target => ?_
      cases found with
      | nil => exact hmore key target rfl
      | cons previous earlier =>
          dsimp only
          split
          · exact malformed_bind _
          · rename_i hkey
            exact hmore key target (by simpa using hkey)

theorem yields_pairs (n : Nat) :
    Decodes operands front (8 * n + room) (switchPairs site [] n) fun pairs c =>
      (pairs.length = n ∧ pairs.Pairwise fun a b => a.1 < b.1) ∧
        Stands operands (front ++ pairs.flatMap (pairBytes site.pc.toNat)) room c := by
  have hpairs : Decodes operands (front ++ [].reverse.flatMap (pairBytes site.pc.toNat)) (8 * n + room)
      (switchPairs site [] n) _ := yields_switchPairs .nil n
  simpa using hpairs

theorem yields_lookupSwitch (hcovers : site.Covers operands) (hopcode : site.opcode = 0xab)
    (hsupports : site.method.version.Supports site.opcode) :
    Decodes operands [] 0 (lookupSwitch site) (Writes site operands) := by
  obtain ⟨hpadding, haligned⟩ := paddingAt_aligns site.pc
  unfold lookupSwitch
  refine .bind (yields_requireLength hcovers _) fun _ => ?_
  have hhead : 1 + paddingAt site.pc + 8 - 1 - ([] : List UInt8).length =
      paddingAt site.pc + (4 + (4 + 0)) := by
    rw [List.length_nil]
    omega
  rw [hhead]
  refine .bind (yields_padding _) fun _ => .bind yields_longTarget fun default => ?_
  refine .bind yields_i32 fun count => ?_
  split
  · exact malformed_bind _
  · rename_i hcount
    refine .bind (yields_requireLength hcovers _) fun _ => ?_
    have hroom : 1 + paddingAt site.pc + 8 + 8 * count.toInt.toNat - 1
        - ([] ++ List.replicate (paddingAt site.pc) 0 ++ distanceBytes 4 site.pc.toNat default
          ++ signedBytes 4 count.toInt).length = 8 * count.toInt.toNat + 0 := by
      simp only [List.length_append, List.length_nil, List.length_replicate, length_distanceBytes,
        length_signedBytes]
      omega
    rw [hroom]
    refine .bind (yields_pairs count.toInt.toNat) fun pairs => ?_
    refine .pure fun c ⟨⟨hlength, hkeys⟩, hc⟩ =>
      writes_of_encodes hc ?_ (by rw [hopcode]; decide) hsupports
    have hpairs : (pairs.length : Int) = count.toInt := by
      rw [Int32.not_lt, Int32.le_iff_toInt_le, Int32.toInt_zero] at hcount
      omega
    have hencodes : Encodes site.pool site.method.version site.pc.toNat (.lookupSwitch default pairs) _ :=
      .lookupSwitch hpadding haligned hkeys
    rw [hpairs] at hencodes
    simpa [hopcode] using hencodes

theorem slotCount_eq_of_isWide (type : FieldType) (provenance : Provenance) :
    type.slotCount = if (StackItem.ofField type provenance).isWide then 2 else 1 := by
  rw [← StackItem.slots_ofField type provenance, Category.size, StackItem.isWide]
  split <;> rfl

theorem yields_poolConstant {before : Cursor → Prop} (index : UInt16) (wideValue : Bool) :
    Yields before (poolConstant site index wideValue)
      (fun i c => (∃ value, i = .ldc value ∧ site.pool.loadableAt index = .ok value ∧
        value.type.slotCount = if wideValue then 2 else 1) ∧ before c)
      fun fault _ => fault.Foreseen := by
  refine .bind (yields_ofPool _) fun value => .given fun hvalue => ?_
  set item := StackItem.ofField value.type ⟨site.pc, .constant⟩ with hitem
  have hloads : Yields before
      (do
        if wideValue ≠ item.isWide then
          throw (.mismatch (if wideValue then .wideConstant else .narrowConstant) item.subject)
        return .ldc value : Decoder Instruction)
      (fun i c => (∃ value, i = .ldc value ∧ site.pool.loadableAt index = .ok value ∧
        value.type.slotCount = if wideValue then 2 else 1) ∧ before c)
      fun fault _ => fault.Foreseen := by
    split
    · exact .throw_bind fun _ _ => ⟨nofun, nofun⟩
    · rename_i hwide
      rw [ne_eq, not_not] at hwide
      exact .pure fun c hc => ⟨⟨value, rfl, hvalue, hwide ▸ slotCount_eq_of_isWide _ _⟩, hc⟩
  dsimp only
  split
  · split
    · exact malformed_bind _
    · exact hloads
  · exact hloads

theorem yields_interfaceMethod :
    Decodes operands [] 4 (interfaceMethod site) fun method c => ∃ (index : UInt16) (count : UInt8),
      site.pool.interfaceMethodAt index = .ok method ∧
        count.toUInt16 = method.descriptor.parameterSlots + 1 ∧
          Stands operands (bigEndianBytes 2 index.toNat ++ [count, 0]) 0 c := by
  change Decodes operands [] (2 + (1 + (1 + 0))) _ _
  refine .bind yields_u16 fun index => .bind (yields_ofPool _) fun method => .given fun hmethod => ?_
  refine .bind yields_u8 fun count => .bind yields_u8 fun zero => ?_
  dsimp only
  split
  · exact malformed_bind _
  · rename_i hcount
    split
    · exact malformed_bind _
    · rename_i hzero
      rw [ne_eq, not_not] at hcount hzero
      subst hzero
      exact .pure fun c hc => ⟨index, count, hmethod, hcount, by simpa using hc⟩

theorem yields_ordinaryMethod (kind : InvokeKind) :
    Decodes operands [] 2 (ordinaryMethod site kind) fun method c => ∃ index : UInt16,
      site.pool.methodAt index = .ok method ∧
        (method.ofInterface = true → kind ≠ .virtual ∧ 52 ≤ site.method.version.major) ∧
          Stands operands (bigEndianBytes 2 index.toNat) 0 c := by
  change Decodes operands [] (2 + 0) _ _
  refine .bind yields_u16 fun index => .bind (yields_ofPool _) fun method => .given fun hmethod => ?_
  dsimp only
  split
  · exact .throw_bind fun _ _ => ⟨nofun, nofun⟩
  · rename_i hallowed
    refine .pure fun c hc => ⟨index, hmethod, fun howner => ?_, hc⟩
    rw [howner, Bool.true_and, Bool.not_eq_true', Bool.not_eq_false, Bool.and_eq_true] at hallowed
    exact ⟨of_decide_eq_true hallowed.1, of_decide_eq_true hallowed.2⟩

/-- The count that an interface method is called with tells its slots. -/
theorem count_of_slots {method : MethodRef} {count : UInt8}
    (hcount : count.toUInt16 = method.descriptor.parameterSlots + 1) :
    count.toNat = slotCount method.descriptor.parameters + 1 := by
  have hslots := method.descriptor.slotCount_le
  have hsum := congrArg UInt16.toNat hcount
  rw [UInt16.toNat_add, method.descriptor.toNat_parameterSlots] at hsum
  exact hsum.trans (Nat.mod_eq_of_lt (Nat.lt_of_le_of_lt (Nat.add_le_add_right hslots 1) (by decide)))

theorem yields_invocation (kind : InvokeKind) (hopcode : site.opcode = kind.opcode)
    (hsupports : site.method.version.Supports site.opcode) :
    Decodes operands [] (if kind = .interface then 4 else 2) (invocation site kind)
      (Writes site operands) := by
  have hsole : ∀ front, ∀ opcode ∈ opcodesIn (site.opcode :: front),
      site.method.version.Supports opcode := by
    have hnarrow : site.opcode ≠ 0xc4 := by
      rw [hopcode]
      cases kind <;> decide
    intro front opcode hmem
    rw [opcodesIn, if_neg hnarrow, List.mem_singleton] at hmem
    exact hmem ▸ hsupports
  have hchecked : ∀ method : MethodRef, Yields (Writes site operands (.invoke kind method))
      (do
        if method.name.isInit && kind ≠ .special then malformed site .initInvocation
        return .invoke kind method : Decoder Instruction)
      (Writes site operands) fun fault _ => fault.Foreseen := by
    intro method
    split
    · exact malformed_bind _
    · exact .pure fun c hc => hc
  unfold invocation
  split
  · rename_i hkind
    subst hkind
    refine .bind (yields_interfaceMethod.mono (fun _ hc => hc) ?_ fun _ _ hfault => hfault) hchecked
    rintro method c ⟨index, count, hmethod, hcount, hc⟩
    refine ⟨_, hc, ?_, hsole _⟩
    rw [hopcode]
    exact .invokeInterface hmethod (count_of_slots hcount)
  · rename_i hkind
    refine .bind ((yields_ordinaryMethod kind).mono (fun _ hc => hc) ?_ fun _ _ hfault => hfault) hchecked
    rintro method c ⟨index, hmethod, howner, hc⟩
    refine ⟨_, hc, ?_, hsole _⟩
    rw [hopcode]
    exact .invoke hkind hmethod howner

theorem arrayCode_of_elementOfCode? {code : UInt8} {element : Primitive}
    (h : elementOfCode? code = some element) : element.arrayCode = code := by
  unfold elementOfCode? at h
  split at h <;> cases h <;> rfl

theorem yields_newArray (hopcode : site.opcode = 0xbc)
    (hsupports : site.method.version.Supports site.opcode) :
    Decodes operands [] 1 (newArray site) (Writes site operands) := by
  change Decodes operands [] (1 + 0) _ _
  refine .bind yields_u8 fun code => ?_
  cases helement : elementOfCode? code with
  | none => exact yields_malformed _
  | some element =>
      refine .pure fun c hc => writes_of_encodes hc ?_ (by rw [hopcode]; decide) hsupports
      rw [hopcode, ← arrayCode_of_elementOfCode? helement]
      exact .newArray element

theorem yields_newMultiArray (hopcode : site.opcode = 0xc5)
    (hsupports : site.method.version.Supports site.opcode) :
    Decodes operands [] 3 (newMultiArray site) (Writes site operands) := by
  change Decodes operands [] (2 + (1 + 0)) _ _
  refine .bind yields_classRef fun type => .from_exists fun index => .given fun htype => ?_
  refine .bind yields_u8 fun dimensions => ?_
  dsimp only
  split
  · exact malformed_bind _
  · rename_i hpositive
    split
    · exact malformed_bind _
    · rename_i hdimensions
      refine .pure fun c hc => writes_of_encodes hc ?_ (by rw [hopcode]; decide) hsupports
      rw [hopcode]
      exact .newMultiArray htype (UInt8.pos_iff_ne_zero.mpr hpositive) (UInt8.not_lt.mp hdimensions)

section Wide

variable (hcovers : site.Covers operands) (hopcode : site.opcode = 0xc4)
  (hsupports : site.method.version.Supports site.opcode)

include hopcode hsupports

theorem supports_wide {modified : UInt8} (hmodified : site.method.version.Supports modified)
    (more : List UInt8) :
    ∀ opcode ∈ opcodesIn (site.opcode :: modified :: more), site.method.version.Supports opcode := by
  intro opcode hmem
  rw [opcodesIn, if_pos hopcode, List.take_succ_cons, List.take_zero, List.mem_cons,
    List.mem_singleton] at hmem
  rcases hmem with rfl | rfl
  · exact hsupports
  · exact hmodified

include hcovers

/-- An opcode behind `wide` that has an index of a local variable and nothing else. -/
theorem yields_wideLocal {modified : UInt8} {layout : Layout} {i : UInt16 → Instruction}
    (hlayout : Opcode.layout? modified = some layout)
    (hsubroutine : layout.isSubroutine = true → Profile.ofVersion site.method.version ≠ .modern)
    (hi : ∀ index, (i index).localOpcode? = layout.opcode?.map fun opcode => (opcode, index)) :
    Decodes operands [modified] 0
      (do
        requireLength site 4
        return i (← Reader.u16)) (Writes site operands) := by
  have hmodified := Opcode.supports_of_layout? hlayout hsubroutine
  refine .bind (yields_requireLength hcovers 4) fun _ => ?_
  change Decodes operands [modified] (2 + 0) _ _
  refine .bind yields_u16 fun index => .pure fun c hc =>
    ⟨_, hc, ?_, supports_wide hopcode hsupports hmodified _⟩
  rw [hopcode]
  refine .wideLocalVariable ((hi index).trans ?_)
  rw [(Opcode.standsAt_layout? hlayout).1]
  rfl

theorem yields_wideIncrement {modified : UInt8} (hlayout : Opcode.layout? modified = some .increment) :
    Decodes operands [modified] 0
      (do
        requireLength site 6
        return .increment (← Reader.u16) (← Reader.i16)) (Writes site operands) := by
  have hmodified : some 0x84 = some modified := (Opcode.standsAt_layout? hlayout).1
  have hplain : site.method.version.Supports modified :=
    Opcode.supports_of_layout? hlayout fun h => absurd h Bool.false_ne_true
  refine .bind (yields_requireLength hcovers 6) fun _ => ?_
  change Decodes operands [modified] (2 + (2 + 0)) _ _
  refine .bind yields_u16 fun index => .bind yields_i16 fun delta => .pure fun c hc =>
    ⟨_, hc, ?_, supports_wide hopcode hsupports hplain _⟩
  rw [hopcode, ← Option.some.inj hmodified]
  exact .wideIncrement index delta

theorem yields_wide : Decodes operands [] 0 (wide site) (Writes site operands) := by
  unfold wide
  refine .bind (yields_requireLength hcovers 2) fun _ => ?_
  change Decodes operands [] (1 + 0) _ _
  refine .bind yields_u8 fun modified => ?_
  split
  · rename_i hlayout
    exact yields_wideLocal hcovers hopcode hsupports hlayout nofun fun _ => rfl
  · rename_i hlayout
    exact yields_wideLocal hcovers hopcode hsupports hlayout nofun fun _ => rfl
  · rename_i hlayout
    split
    · exact .throw_bind fun _ _ => CodeFault.foreseen_invalidOpcode _ _
    · rename_i hmodern
      exact yields_wideLocal hcovers hopcode hsupports hlayout (fun _ => hmodern) fun _ => rfl
  · rename_i hlayout
    exact yields_wideIncrement hcovers hopcode hsupports hlayout
  · exact yields_malformed _

end Wide

/-- Reading has come to an operation and the end of bytes that spell whatever it turns out to be. -/
def WritesAny (site : Site) (operands : List UInt8) (operation : Operation) (c : Cursor) : Prop :=
  ∃ front, Stands operands front 0 c ∧
    ∀ i, operation.Becomes i → site.Spells i (site.opcode :: front)

theorem Writes.any {i : Instruction} {c : Cursor} (h : Writes site operands i c) :
    WritesAny site operands (.instruction i) c := by
  obtain ⟨front, hc, hspells⟩ := h
  exact ⟨front, hc, fun _ hj => hj ▸ hspells⟩

theorem yields_done {decoder : Decoder Instruction}
    (h : Decodes operands front room decoder (Writes site operands)) :
    Decodes operands front room (do return .instruction (← decoder)) (WritesAny site operands) :=
  .bind h fun _ => .pure fun _ hc => hc.any

/-! The operands of an opcode that stands alone, by the families of layouts. -/

section Narrow

variable (hnarrow : site.opcode ≠ 0xc4) (hsupports : site.method.version.Supports site.opcode)

include hnarrow hsupports

theorem writesAny_of_encodes {i : Instruction} {c : Cursor} (hc : Stands operands front 0 c)
    (hencodes : Encodes site.pool site.method.version site.pc.toNat i (site.opcode :: front)) :
    WritesAny site operands (.instruction i) c :=
  (writes_of_encodes hc hencodes hnarrow hsupports).any

theorem yields_sole {i : Instruction} (hopcode : i.soleOpcode? = some site.opcode) :
    Decodes operands [] 0 (pure (.instruction i)) (WritesAny site operands) :=
  .pure fun _ hc => writesAny_of_encodes hnarrow hsupports hc (.sole hopcode)

theorem yields_localVariable {i : UInt16 → Instruction}
    (hopcode : ∀ index, (i index).localOpcode? = some (site.opcode, index)) :
    Decodes operands [] 1 (do return .instruction (i (← Reader.u8).toUInt16)) (WritesAny site operands) := by
  change Decodes operands [] (1 + 0) _ _
  exact .bind yields_u8 fun index => .pure fun c hc =>
    writesAny_of_encodes hnarrow hsupports hc (.localVariable (hopcode index.toUInt16))

theorem writesAny_of_class {i : Instruction} {type : ClassName} {c : Cursor}
    (hopcode : i.classOpcode? = some (site.opcode, type))
    (hc : ∃ index : UInt16, site.pool.classAt index = .ok type ∧
      Stands operands (bigEndianBytes 2 index.toNat) 0 c) : WritesAny site operands (.instruction i) c := by
  obtain ⟨index, htype, hc⟩ := hc
  exact writesAny_of_encodes hnarrow hsupports hc (.classOperand hopcode htype)

theorem yields_classOperand {i : ClassName → Instruction}
    (hopcode : ∀ type, (i type).classOpcode? = some (site.opcode, type)) :
    Decodes operands [] 2 (do return .instruction (i (← classRef site))) (WritesAny site operands) := by
  change Decodes operands [] (2 + 0) _ _
  exact .bind yields_classRef fun type => .pure fun c hc =>
    writesAny_of_class hnarrow hsupports (hopcode type) hc

theorem yields_newObject (hopcode : site.opcode = 0xbb) :
    Decodes operands [] 2 (Decoder.operands site .newObject) (WritesAny site operands) := by
  change Decodes operands [] (2 + 0) _ _
  refine .bind yields_classRef fun type => ?_
  split
  · exact malformed_bind _
  · exact .pure fun c hc => writesAny_of_class hnarrow hsupports (by rw [hopcode]; rfl) hc

theorem yields_constantAt {wideValue : Bool} {index : UInt16}
    (hencodes : ∀ value, site.pool.loadableAt index = .ok value →
      value.type.slotCount = (if wideValue then 2 else 1) →
        Encodes site.pool site.method.version site.pc.toNat (.ldc value) (site.opcode :: front)) :
    Decodes operands front 0 (do return .instruction (← poolConstant site index wideValue))
      (WritesAny site operands) := by
  refine yields_done ((yields_poolConstant _ wideValue).mono (fun _ hc => hc) ?_ fun _ _ hfault => hfault)
  rintro _ c ⟨⟨value, rfl, hvalue, hslots⟩, hc⟩
  exact writes_of_encodes hc (hencodes value hvalue hslots) hnarrow hsupports

theorem yields_narrowConstant (hopcode : site.opcode = 0x12) :
    Decodes operands [] 1 (Decoder.operands site (.poolConstant false false)) (WritesAny site operands) := by
  change Decodes operands [] (1 + 0) _ _
  have hindex : Decodes operands [] (1 + 0) (UInt8.toUInt16 <$> Reader.u8)
      fun index c => ∃ b : UInt8, b.toUInt16 = index ∧ Stands operands [b] 0 c :=
    .map (yields_u8.mono (fun _ hc => hc) (fun b _ hc => ⟨b, rfl, hc⟩) fun _ _ hfault => hfault)
  refine .bind hindex fun index => .from_exists fun b => .given fun hb => ?_
  subst hb
  refine yields_constantAt hnarrow hsupports fun value hvalue hslots => ?_
  rw [hopcode]
  exact .poolConstant hvalue hslots

theorem yields_longConstant {wideValue : Bool} (hopcode : site.opcode = if wideValue then 0x14 else 0x13) :
    Decodes operands [] 2 (Decoder.operands site (.poolConstant true wideValue)) (WritesAny site operands) := by
  change Decodes operands [] (2 + 0) _ _
  refine .bind yields_u16 fun index => yields_constantAt hnarrow hsupports fun value hvalue hslots => ?_
  rw [hopcode]
  cases wideValue with
  | true => exact .widePoolConstant hvalue hslots
  | false => exact .longPoolConstant hvalue hslots

theorem yields_jump {branch : Jump} (hopcode : site.opcode = branch.opcode) :
    Decodes operands [] 2 (Decoder.operands site (.jump branch false)) (WritesAny site operands) := by
  change Decodes operands [] (2 + 0) _ _
  refine .bind yields_shortTarget fun target => .given fun hnear => .pure fun c hc =>
    writesAny_of_encodes hnarrow hsupports hc ?_
  rw [hopcode]
  exact .jump branch hnear.1 hnear.2

theorem yields_longJump {branch : Jump} (hopcode : branch.longOpcode? = some site.opcode) :
    Decodes operands [] 4 (Decoder.operands site (.jump branch true)) (WritesAny site operands) := by
  change Decodes operands [] (4 + 0) _ _
  exact .bind yields_longTarget fun target => .pure fun c hc =>
    writesAny_of_encodes hnarrow hsupports hc (.longJump hopcode target)

theorem yields_field {use : FieldUse} (hopcode : site.opcode = use.opcode) :
    Decodes operands [] 2 (Decoder.operands site (.field use)) (WritesAny site operands) := by
  change Decodes operands [] (2 + 0) _ _
  refine .bind yields_u16 fun index => .bind (yields_ofPool _) fun field => .given fun hfield =>
    .pure fun c hc => writesAny_of_encodes hnarrow hsupports hc ?_
  rw [hopcode]
  exact .field use hfield

end Narrow

theorem yields_shuffle {op : ShuffleOp} (hopcode : site.opcode = op.opcode) (hnarrow : site.opcode ≠ 0xc4)
    (hsupports : site.method.version.Supports site.opcode) :
    Decodes operands [] 0 (pure (.shuffle op)) (WritesAny site operands) := by
  refine .pure fun c hc => ⟨[], hc, ?_⟩
  rintro _ ⟨form, rfl, rfl⟩
  refine ⟨.sole (congrArg some hopcode.symm), ?_⟩
  rw [opcodesIn, if_neg hnarrow]
  simpa using hsupports

theorem yields_operands (hcovers : site.Covers operands) {layout : Layout}
    (hlayout : Opcode.layout? site.opcode = some layout)
    (hsupports : site.method.version.Supports site.opcode) :
    Decodes operands [] layout.room (Decoder.operands site layout) (WritesAny site operands) := by
  have hopcode := (Opcode.standsAt_layout? hlayout).1
  by_cases hwide : layout = .wide
  · subst hwide
    exact yields_done (yields_wide hcovers (Option.some.inj hopcode).symm hsupports)
  have hnarrow : site.opcode ≠ 0xc4 := by
    intro heq
    rw [heq, Opcode.layout?_wide] at hlayout
    exact hwide (Option.some.inj hlayout).symm
  cases layout with
  | plain | arithmetic | negate | convert => exact yields_sole hnarrow hsupports hopcode
  | shuffle => exact yields_shuffle (Option.some.inj hopcode).symm hnarrow hsupports
  | byteConstant =>
      change Decodes operands [] (1 + 0) _ _
      refine .bind yields_i8 fun value => .pure fun c hc => writesAny_of_encodes hnarrow hsupports hc ?_
      rw [← Option.some.inj hopcode]
      exact .byteConstant value
  | shortConstant =>
      change Decodes operands [] (2 + 0) _ _
      refine .bind yields_i16 fun value => .pure fun c hc => writesAny_of_encodes hnarrow hsupports hc ?_
      rw [← Option.some.inj hopcode]
      exact .shortConstant value
  | poolConstant longIndex wideValue =>
      cases longIndex with
      | true =>
          refine yields_longConstant hnarrow hsupports ?_
          cases wideValue <;> exact (Option.some.inj hopcode).symm
      | false =>
          cases wideValue with
          | true => cases hopcode
          | false => exact yields_narrowConstant hnarrow hsupports (Option.some.inj hopcode).symm
  | load | store | ret =>
      refine yields_localVariable hnarrow hsupports fun index => ?_
      rw [← Option.some.inj hopcode]
      rfl
  | increment =>
      change Decodes operands [] (1 + (1 + 0)) _ _
      refine .bind yields_u8 fun index => .bind yields_i8 fun delta => .pure fun c hc =>
        writesAny_of_encodes hnarrow hsupports hc ?_
      rw [← Option.some.inj hopcode]
      exact .increment index delta
  | jump branch longDistance =>
      cases longDistance with
      | false => exact yields_jump hnarrow hsupports (Option.some.inj hopcode).symm
      | true => exact yields_longJump hnarrow hsupports hopcode
  | tableSwitch => exact yields_done (yields_tableSwitch hcovers (Option.some.inj hopcode).symm hsupports)
  | lookupSwitch => exact yields_done (yields_lookupSwitch hcovers (Option.some.inj hopcode).symm hsupports)
  | field use => exact yields_field hnarrow hsupports (Option.some.inj hopcode).symm
  | invoke kind =>
      have hinvocation : Decodes operands [] _ (invocation site kind) (Writes site operands) :=
        yields_invocation kind (Option.some.inj hopcode).symm hsupports
      cases kind <;> exact yields_done hinvocation
  | newObject => exact yields_newObject hnarrow hsupports (Option.some.inj hopcode).symm
  | newArray => exact yields_done (yields_newArray (Option.some.inj hopcode).symm hsupports)
  | newMultiArray => exact yields_done (yields_newMultiArray (Option.some.inj hopcode).symm hsupports)
  | newReferenceArray | checkCast | instanceOf =>
      refine yields_classOperand hnarrow hsupports fun type => ?_
      rw [← Option.some.inj hopcode]
      rfl
  | wide => exact absurd rfl hwide

theorem yields_instruction (hcovers : site.Covers operands) {layout : Layout}
    (hlayout : Opcode.layout? site.opcode = some layout)
    (hsupports : site.method.version.Supports site.opcode) :
    Decodes operands [] 0 (instruction site layout.length layout) (WritesAny site operands) := by
  have hoperands := yields_operands hcovers hlayout hsupports
  unfold Layout.room at hoperands
  unfold instruction
  cases hlength : layout.length with
  | fixed bytes =>
      rw [hlength] at hoperands
      exact .bind (yields_requireLength hcovers _) fun _ => hoperands
  | «variable» =>
      rw [hlength] at hoperands
      exact hoperands

end Decoder

namespace Site

variable {site : Site} {operands : List UInt8}

/-- Decoding fails with a foreseen fault, or the operands that it read spell the instruction together with the
opcode. -/
theorem decode_spells (hcovers : site.Covers operands) :
    (∃ fault, site.decode operands = .error fault ∧ fault.Foreseen) ∨
      ∃ operation used, site.decode operands = .ok (operation, used) ∧ used ≤ operands.length ∧
        ∀ i, operation.Becomes i → site.Spells i (site.opcode :: operands.take used) := by
  unfold decode
  dsimp only
  split
  · rename_i rejection _
    cases rejection <;> exact .inl ⟨_, rfl, CodeFault.foreseen_invalidOpcode _ _⟩
  · rename_i layout hlayout
    obtain ⟨hlength, hrow, hsupports⟩ := Opcode.layout_ofByte hlayout
    have hstart : Stands operands [] 0 (ofBytes operands) := ⟨rfl, rfl, Nat.zero_le _⟩
    have hruns := Decoder.yields_instruction hcovers hrow hsupports (ofBytes operands) hstart
    rw [hlength]
    cases hrun : Decoder.instruction site layout.length layout (ofBytes operands) with
    | error fault c =>
        rw [hrun] at hruns
        exact .inl ⟨fault, rfl, hruns⟩
    | ok operation c =>
        rw [hrun] at hruns
        obtain ⟨front, hc, hspells⟩ := hruns
        have hlengths := congrArg List.length hc.data
        rw [List.length_append, ← hc.position] at hlengths
        refine .inr ⟨operation, c.position, rfl, by omega, ?_⟩
        rwa [hc.position, ← hc.data, List.take_left]

theorem foreseen_decode (hcovers : site.Covers operands) : Foresees (site.decode operands) := by
  rcases decode_spells hcovers with ⟨fault, hfault, hforeseen⟩ | ⟨_, _, hdecoded, _⟩
  · rw [hfault]
    exact .error hforeseen
  · rw [hdecoded]
    exact .ok _

theorem spells_of_decode (hcovers : site.Covers operands) {operation : Operation} {used : Nat}
    (h : site.decode operands = .ok (operation, used)) :
    used ≤ operands.length ∧
      ∀ i, operation.Becomes i → site.Spells i (site.opcode :: operands.take used) := by
  rcases decode_spells hcovers with ⟨_, hfault, _⟩ | ⟨_, _, hdecoded, hspells⟩
  · cases h.symm.trans hfault
  · cases h.symm.trans hdecoded
    exact hspells

end Site

end ClassFile
