import ClassFile.Proofs.Instruction.Encoding

/-! The instructions on a local variable. Loads and stores are written with an opcode of their own for each of
the first four variables, with an index of one byte, or behind `wide` with one of two bytes; increments and
the return from a subroutine are written in the last two ways. All ways to write an instruction are decoded
to it. -/

namespace ClassFile

/-- The local variable that an instruction names, if it names one. -/
def Instruction.localIndex? : Instruction → Option UInt16
  | .load _ index | .store _ index | .increment index _ | .ret index => some index
  | _ => none

namespace Opcode

theorem layout?_load (kind : ValueKind) :
    layout? (UInt8.ofNat (0x15 + ValueKind.all.idxOf kind)) = some (.load kind) := by
  cases kind <;> decide +kernel

theorem layout?_store (kind : ValueKind) :
    layout? (UInt8.ofNat (0x36 + ValueKind.all.idxOf kind)) = some (.store kind) := by
  cases kind <;> decide +kernel

theorem layout?_increment : layout? 0x84 = some .increment := by decide +kernel

theorem layout?_ret : layout? 0xa9 = some .ret := by decide +kernel

theorem layout?_firstLoads (kind : ValueKind) : ∀ n < 4,
    layout? (UInt8.ofNat (0x1a + (4 * ValueKind.all.idxOf kind + n))) =
      some (.plain (.load kind (UInt16.ofNat n))) := by
  cases kind <;> decide +kernel

theorem layout?_firstStores (kind : ValueKind) : ∀ n < 4,
    layout? (UInt8.ofNat (0x3b + (4 * ValueKind.all.idxOf kind + n))) =
      some (.plain (.store kind (UInt16.ofNat n))) := by
  cases kind <;> decide +kernel

/-- The first four variables have opcodes of their own, counted in the order of the kinds of values. -/
theorem layout?_sole {i : Instruction} {opcode : UInt8} (hlocal : i.localIndex?.isSome = true)
    (hopcode : i.soleOpcode? = some opcode) : layout? opcode = some (.plain i) := by
  cases i with
  | load kind index =>
      obtain ⟨hindex, hopcode⟩ := Option.ite_none_right_eq_some.mp hopcode
      have hrow := layout?_firstLoads kind index.toNat (UInt16.lt_iff_toNat_lt.mp hindex)
      rwa [UInt16.ofNat_toNat, Option.some.inj hopcode] at hrow
  | store kind index =>
      obtain ⟨hindex, hopcode⟩ := Option.ite_none_right_eq_some.mp hopcode
      have hrow := layout?_firstStores kind index.toNat (UInt16.lt_iff_toNat_lt.mp hindex)
      rwa [UInt16.ofNat_toNat, Option.some.inj hopcode] at hrow
  | increment | ret => cases hopcode
  | _ => cases hlocal

/-- An opcode of the table is accepted in the versions of a profile, unless it is that of a subroutine. -/
theorem ofByte_of_layout? {profile : Profile} {opcode : UInt8} {layout : Layout}
    (h : layout? opcode = some layout) (hsubroutine : layout.isSubroutine = true → profile = .legacy) :
    (ofByte profile opcode).layout = .ok layout ∧ (ofByte profile opcode).length = layout.length := by
  obtain ⟨⟨mnemonic, found⟩, hrow, hfound⟩ := Option.bind_eq_some_iff.mp h
  obtain rfl : found = some layout := hfound
  have hallowed : (layout.isSubroutine && decide (profile = .modern)) = false := by
    cases hlayout : layout.isSubroutine with
    | false => rfl
    | true => rw [hsubroutine hlayout]; rfl
  unfold ofByte
  rw [hrow]
  simp [ofRow, hallowed]

end Opcode

variable {i : Instruction}

theorem Decoder.requireLength_run {site : Site} {length : Nat}
    (h : site.pc.toNat + length ≤ site.codeLength.toNat) (c : Cursor) :
    requireLength site length c = .ok () c := by
  unfold requireLength
  rw [if_neg (Nat.not_lt.mpr h)]
  rfl

/-- An instruction that lies within the code is decoded as its operands are. -/
theorem Site.decode_run (site : Site) {operands : List UInt8} {layout : Layout} {operation : Operation}
    {c : Cursor}
    (hlayout : Opcode.layout? site.opcode = some layout)
    (hsubroutine : layout.isSubroutine = true → Profile.ofVersion site.method.version = .legacy)
    (hroom : ∀ size, layout.length = .fixed size → site.pc.toNat + size.toNat ≤ site.codeLength.toNat)
    (hrun : Decoder.operands site layout (.ofBytes operands) = .ok operation c) :
    site.decode operands = .ok (operation, c.position) := by
  obtain ⟨hfound, hlength⟩ := Opcode.ofByte_of_layout? hlayout hsubroutine
  have hinstruction : Decoder.instruction site layout.length layout (.ofBytes operands) =
      .ok operation c := by
    unfold Decoder.instruction
    cases hsize : layout.length with
    | fixed size =>
        exact bind_run.mpr ⟨_, _, Decoder.requireLength_run (hroom size hsize) _, hrun⟩
    | «variable» => exact hrun
  unfold decode
  simp only [hfound, hlength, hinstruction]

namespace Decoder

open Reader

variable (site : Site)

/-- The index takes one byte. -/
theorem operands_index_run {opcode index : UInt8} (hopcode : i.localOpcode? = some (opcode, index.toUInt16)) :
    ∃ layout, Opcode.layout? opcode = some layout ∧ layout.length = .fixed 2 ∧
      (layout.isSubroutine = true → ∃ index, i = .ret index) ∧
      ∀ more, operands site layout (.ofBytes (index :: more)) = .ok (.instruction i) ⟨0, 1, more⟩ := by
  have hindex := u8_run (ε := CodeFault) 0 0 index
  cases i with
  | load kind found =>
      cases hopcode
      exact ⟨.load kind, Opcode.layout?_load kind, rfl, nofun,
        fun more => bind_run.mpr ⟨_, _, hindex more, rfl⟩⟩
  | store kind found =>
      cases hopcode
      exact ⟨.store kind, Opcode.layout?_store kind, rfl, nofun,
        fun more => bind_run.mpr ⟨_, _, hindex more, rfl⟩⟩
  | ret found =>
      cases hopcode
      exact ⟨.ret, Opcode.layout?_ret, rfl, fun _ => ⟨_, rfl⟩,
        fun more => bind_run.mpr ⟨_, _, hindex more, rfl⟩⟩
  | _ => cases hopcode

theorem operands_increment_run (index : UInt8) (delta : Int8) (more : List UInt8) :
    operands site .increment (.ofBytes (index :: (signedBytes 1 delta.toInt ++ more))) =
      .ok (.instruction (.increment index.toUInt16 delta.toInt16)) ⟨0, 2, more⟩ :=
  bind_run.mpr ⟨_, _, u8_run 0 0 index _, bind_run.mpr ⟨_, _, i8_run 0 1 delta more, rfl⟩⟩

/-- Behind `wide` the index takes two bytes. -/
theorem wide_index_run {modified : UInt8} {index : UInt16}
    (hroom : site.pc.toNat + 4 ≤ site.codeLength.toNat)
    (hopcode : i.localOpcode? = some (modified, index))
    (hret : ∀ index, i = .ret index → Profile.ofVersion site.method.version = .legacy)
    (more : List UInt8) :
    operands site .wide (.ofBytes (modified :: (bigEndianBytes 2 index.toNat ++ more))) =
      .ok (.instruction i) ⟨0, 3, more⟩ := by
  have hstart : ∀ c, requireLength site 2 c = .ok () c := requireLength_run (by omega)
  have hlength := requireLength_run hroom
  have hindex := u16_run (ε := CodeFault) 0 1 index more
  refine bind_run.mpr ⟨i, _, bind_run.mpr ⟨_, _, hstart _, bind_run.mpr
    ⟨_, _, u8_run 0 0 modified _, ?_⟩⟩, rfl⟩
  cases i with
  | load kind found =>
      cases hopcode
      rw [Opcode.layout?_load]
      exact bind_run.mpr ⟨_, _, hlength _, bind_run.mpr ⟨_, _, hindex, rfl⟩⟩
  | store kind found =>
      cases hopcode
      rw [Opcode.layout?_store]
      exact bind_run.mpr ⟨_, _, hlength _, bind_run.mpr ⟨_, _, hindex, rfl⟩⟩
  | ret found =>
      cases hopcode
      have hmodern : ¬Profile.ofVersion site.method.version = .modern := by simp [hret _ rfl]
      rw [Opcode.layout?_ret]
      dsimp only
      rw [if_neg hmodern]
      exact bind_run.mpr ⟨_, _, hlength _, bind_run.mpr ⟨_, _, hindex, rfl⟩⟩
  | _ => cases hopcode

theorem wide_increment_run (index : UInt16) (delta : Int16)
    (hroom : site.pc.toNat + 6 ≤ site.codeLength.toNat) (more : List UInt8) :
    operands site .wide
        (.ofBytes (0x84 :: (bigEndianBytes 2 index.toNat ++ (signedBytes 2 delta.toInt ++ more)))) =
      .ok (.instruction (.increment index delta)) ⟨0, 5, more⟩ := by
  have hstart : ∀ c, requireLength site 2 c = .ok () c := requireLength_run (by omega)
  have hlength := requireLength_run hroom
  refine bind_run.mpr ⟨_, _, bind_run.mpr ⟨_, _, hstart _, bind_run.mpr
    ⟨_, _, u8_run 0 0 0x84 _, ?_⟩⟩, rfl⟩
  rw [Opcode.layout?_increment]
  exact bind_run.mpr ⟨_, _, hlength _, bind_run.mpr ⟨_, _, u16_run 0 1 index _,
    bind_run.mpr ⟨_, _, i16_run 0 3 delta more, rfl⟩⟩⟩

end Decoder

/-- However an instruction on a local variable is written, it is decoded, and its bytes are read to the end. -/
theorem Encodes.decode_local {pool : Pool} {method : MethodContext} {pc length : UInt16} {front : List UInt8}
    (h : Encodes pool method.version pc.toNat i front) (hlocal : i.localIndex?.isSome = true)
    (hret : ∀ index, i = .ret index → Profile.ofVersion method.version = .legacy)
    (hroom : pc.toNat + front.length ≤ length.toNat) (more : List UInt8) :
    ∃ opcode operands, front = opcode :: operands ∧
      (⟨pc, opcode, length, pool, method⟩ : Site).decode (operands ++ more) =
        .ok (.instruction i, operands.length) := by
  cases h with
  | @sole _ opcode hopcode =>
      refine ⟨opcode, [], rfl,
        Site.decode_run ⟨pc, opcode, length, pool, method⟩ (Opcode.layout?_sole hlocal hopcode) nofun ?_ rfl⟩
      rintro _ ⟨⟩
      exact hroom
  | @localVariable _ opcode index hopcode =>
      obtain ⟨layout, hlayout, hsize, hsubroutine, hrun⟩ :=
        Decoder.operands_index_run ⟨pc, opcode, length, pool, method⟩ hopcode
      refine ⟨opcode, [index], rfl, Site.decode_run ⟨pc, opcode, length, pool, method⟩ hlayout
        (fun h => (hsubroutine h).elim hret) (fun size h => ?_) (hrun more)⟩
      rw [hsize] at h
      cases h
      exact hroom
  | @wideLocalVariable _ opcode index hopcode =>
      have hrun := Decoder.wide_index_run ⟨pc, 0xc4, length, pool, method⟩ hroom hopcode hret more
      exact ⟨0xc4, opcode :: bigEndianBytes 2 index.toNat, rfl,
        Site.decode_run ⟨pc, 0xc4, length, pool, method⟩ Opcode.layout?_wide nofun nofun hrun⟩
  | increment index delta =>
      have hrun := Decoder.operands_increment_run ⟨pc, 0x84, length, pool, method⟩ index delta more
      refine ⟨0x84, index :: signedBytes 1 delta.toInt, rfl,
        Site.decode_run ⟨pc, 0x84, length, pool, method⟩ Opcode.layout?_increment nofun ?_ hrun⟩
      rintro _ ⟨⟩
      exact hroom
  | wideIncrement index delta =>
      have hrun := Decoder.wide_increment_run ⟨pc, 0xc4, length, pool, method⟩ index delta hroom more
      refine ⟨0xc4, 0x84 :: (bigEndianBytes 2 index.toNat ++ signedBytes 2 delta.toInt), rfl, ?_⟩
      rw [List.cons_append, List.append_assoc]
      exact Site.decode_run ⟨pc, 0xc4, length, pool, method⟩ Opcode.layout?_wide nofun nofun hrun
  | jump branch => cases branch <;> cases hlocal
  | @longJump branch => cases branch <;> cases hlocal
  | field use => cases use <;> cases hlocal
  | classOperand hopcode =>
      cases i with
      | load | store | increment | ret => cases hopcode
      | _ => cases hlocal
  | _ => cases hlocal

end ClassFile
