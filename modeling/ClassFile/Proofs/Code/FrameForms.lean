import ClassFile.Code.Frames
import ClassFile.Proofs.Spelling

/-! How stack map frames are written. The first byte of a frame tells its form, and for the shortest forms how
far it is from the one before; a form may be written in several ways, and so may an object type, with any
index of its class. -/

namespace ClassFile

open Cursor

/-- The bytes that write a verification type. An object is written with an index of its class. -/
inductive VerificationType.Spelled (pool : Pool) : VerificationType → List UInt8 → Prop
  | top : Spelled pool .top [0]
  | integer : Spelled pool .integer [1]
  | float : Spelled pool .float [2]
  | double : Spelled pool .double [3]
  | long : Spelled pool .long [4]
  | null : Spelled pool .null [5]
  | uninitializedThis : Spelled pool .uninitializedThis [6]
  | object {index : UInt16} {name : ClassName} (h : pool.classAt index = .ok name) :
    Spelled pool (.object name) (7 :: bigEndianBytes 2 index.toNat)
  | uninitialized (pc : UInt16) : Spelled pool (.uninitialized pc) (8 :: bigEndianBytes 2 pc.toNat)

theorem VerificationType.reads_read (pool : Pool) : Reads (VerificationType.read pool) (Spelled pool) := by
  intro type c c'
  simp only [VerificationType.read, bind_run, Reader.u8_ok]
  constructor
  · rintro ⟨tag, d, htag, hrest⟩
    split at hrest
    case h_8 =>
      obtain ⟨index, e, hindex, hrest⟩ := bind_run.mp hrest
      obtain ⟨name, _, hlift, hrest⟩ := bind_run.mp hrest
      obtain ⟨hname, rfl⟩ := FileReader.liftPool_run.mp hlift
      obtain ⟨rfl, rfl⟩ := pure_run.mp hrest
      exact ⟨_, .object hname, passes_cons.mpr ⟨d, htag, Reader.u16_ok.mp hindex⟩⟩
    case h_9 =>
      obtain ⟨pc, e, hpc, hrest⟩ := bind_run.mp hrest
      obtain ⟨rfl, rfl⟩ := pure_run.mp hrest
      exact ⟨_, .uninitialized pc, passes_cons.mpr ⟨d, htag, Reader.u16_ok.mp hpc⟩⟩
    case h_10 => cases hrest
    all_goals
      obtain ⟨rfl, rfl⟩ := pure_run.mp hrest
      exact ⟨_, by constructor, htag⟩
  · rintro ⟨bytes, hspelled, hpasses⟩
    cases hspelled with
    | @object index name hname =>
        obtain ⟨d, htag, hindex⟩ := passes_cons.mp hpasses
        refine ⟨7, d, htag, bind_run.mpr ⟨index, c', Reader.u16_ok.mpr hindex, ?_⟩⟩
        exact bind_run.mpr ⟨name, c', FileReader.liftPool_run.mpr ⟨hname, rfl⟩, rfl⟩
    | uninitialized pc =>
        obtain ⟨d, htag, hpc⟩ := passes_cons.mp hpasses
        exact ⟨8, d, htag, bind_run.mpr ⟨pc, c', Reader.u16_ok.mpr hpc, rfl⟩⟩
    | _ => exact ⟨_, c', hpasses, rfl⟩

namespace FrameForm

/-- The bytes that write a change of frames, by the ranges of the first one. -/
inductive Spelled (pool : Pool) : FrameForm → List UInt8 → Prop
  | same {kind : UInt8} (h : kind < 64) : Spelled pool (.same kind.toUInt16) [kind]
  | sameWithItem {kind : UInt8} {item bytes} (h : 64 ≤ kind) (h' : kind < 128)
    (hitem : item.Spelled pool bytes) :
    Spelled pool (.sameWithItem (kind - 64).toUInt16 item) (kind :: bytes)
  | farSameWithItem {delta : UInt16} {item bytes} (hitem : item.Spelled pool bytes) :
    Spelled pool (.sameWithItem delta item) (247 :: (bigEndianBytes 2 delta.toNat ++ bytes))
  | chop {kind : UInt8} {delta : UInt16} (h : 248 ≤ kind) (h' : kind < 251) :
    Spelled pool (.chop (251 - kind.toNat) delta) (kind :: bigEndianBytes 2 delta.toNat)
  | farSame {delta : UInt16} : Spelled pool (.same delta) (251 :: bigEndianBytes 2 delta.toNat)
  | append {kind : UInt8} {delta : UInt16} {types bytes} (h : 252 ≤ kind) (h' : kind < 255)
    (hlength : types.length = kind.toNat - 251)
    (htypes : SpelledAll (VerificationType.Spelled pool) types bytes) :
    Spelled pool (.append delta types) (kind :: (bigEndianBytes 2 delta.toNat ++ bytes))
  | full {delta : UInt16} {locals stack front back}
    (hlocals : SpelledList (VerificationType.Spelled pool) locals front)
    (hstack : SpelledList (VerificationType.Spelled pool) stack back) :
    Spelled pool (.full delta locals stack) (255 :: (bigEndianBytes 2 delta.toNat ++ (front ++ back)))

section Kinds

variable {pool : Pool} {kind : UInt8} {form : FrameForm} {bytes : List UInt8} {c c' : Cursor}

theorem spelled_of_readKind (h : readKind pool kind c = .ok form c') :
    ∃ bytes, form.Spelled pool (kind :: bytes) ∧ Passes bytes c c' := by
  have htype := VerificationType.reads_read pool
  unfold readKind at h
  by_cases hsame : kind < 64
  · rw [if_pos hsame] at h
    obtain ⟨rfl, rfl⟩ := pure_run.mp h
    exact ⟨[], .same hsame, passes_nil.mpr rfl⟩
  by_cases hitem : kind < 128
  · rw [if_neg hsame, if_pos hitem] at h
    obtain ⟨item, d, hread, h⟩ := bind_run.mp h
    obtain ⟨rfl, rfl⟩ := pure_run.mp h
    obtain ⟨bytes, hspelled, hpasses⟩ := htype.mp hread
    exact ⟨bytes, .sameWithItem (UInt8.not_lt.mp hsame) hitem hspelled, hpasses⟩
  by_cases hreserved : kind < 247
  · rw [if_neg hsame, if_neg hitem, if_pos hreserved] at h
    cases h
  rw [if_neg hsame, if_neg hitem, if_neg hreserved] at h
  obtain ⟨delta, d, hdelta, h⟩ := bind_run.mp h
  rw [Reader.u16_ok] at hdelta
  by_cases hfar : kind = 247
  · subst hfar
    obtain ⟨item, e, hread, h⟩ := bind_run.mp h
    obtain ⟨rfl, rfl⟩ := pure_run.mp h
    obtain ⟨bytes, hspelled, hpasses⟩ := htype.mp hread
    exact ⟨_, .farSameWithItem hspelled, passes_append.mpr ⟨d, hdelta, hpasses⟩⟩
  by_cases hchop : kind < 251
  · rw [if_neg hfar, if_pos hchop] at h
    obtain ⟨rfl, rfl⟩ := pure_run.mp h
    exact ⟨_, .chop (by grind) hchop, hdelta⟩
  by_cases hagain : kind = 251
  · subst hagain
    obtain ⟨rfl, rfl⟩ := pure_run.mp h
    exact ⟨_, .farSame, hdelta⟩
  by_cases hfull : kind < 255
  · rw [if_neg hfar, if_neg hchop, if_neg hagain, if_pos hfull] at h
    obtain ⟨types, e, hread, h⟩ := bind_run.mp h
    obtain ⟨rfl, rfl⟩ := pure_run.mp h
    obtain ⟨bytes, ⟨hlength, hspelled⟩, hpasses⟩ := (htype.collect _).mp hread
    exact ⟨_, .append (by grind) hfull hlength hspelled, passes_append.mpr ⟨d, hdelta, hpasses⟩⟩
  · rw [if_neg hfar, if_neg hchop, if_neg hagain, if_neg hfull] at h
    obtain ⟨locals, e, hlocals, h⟩ := bind_run.mp h
    obtain ⟨stack, f, hstack, h⟩ := bind_run.mp h
    obtain ⟨rfl, rfl⟩ := pure_run.mp h
    obtain ⟨front, hfront, hpasses⟩ := htype.list.mp hlocals
    obtain ⟨back, hback, hbehind⟩ := htype.list.mp hstack
    obtain rfl : kind = 255 := by grind
    exact ⟨_, .full hfront hback, passes_append.mpr ⟨d, hdelta, passes_append.mpr ⟨e, hpasses, hbehind⟩⟩⟩

theorem readKind_of_spelled (h : form.Spelled pool (kind :: bytes)) (hpasses : Passes bytes c c') :
    readKind pool kind c = .ok form c' := by
  have htype := VerificationType.reads_read pool
  unfold readKind
  cases h with
  | same h =>
      rw [if_pos h, pure_run]
      exact ⟨rfl, (passes_nil.mp hpasses).symm⟩
  | sameWithItem h h' hitem =>
      rw [if_neg (UInt8.not_lt.mpr h), if_pos h']
      exact bind_run.mpr ⟨_, c', htype.mpr ⟨_, hitem, hpasses⟩, rfl⟩
  | farSameWithItem hitem =>
      obtain ⟨d, hdelta, hpasses⟩ := passes_append.mp hpasses
      refine bind_run.mpr ⟨_, d, Reader.u16_ok.mpr hdelta, ?_⟩
      exact bind_run.mpr ⟨_, c', htype.mpr ⟨_, hitem, hpasses⟩, rfl⟩
  | chop h h' =>
      rw [if_neg (by grind), if_neg (by grind), if_neg (by grind)]
      refine bind_run.mpr ⟨_, c', Reader.u16_ok.mpr hpasses, ?_⟩
      rw [if_neg (by grind), if_pos h']
      rfl
  | farSame => exact bind_run.mpr ⟨_, c', Reader.u16_ok.mpr hpasses, rfl⟩
  | append h h' hlength htypes =>
      obtain ⟨d, hdelta, hpasses⟩ := passes_append.mp hpasses
      rw [if_neg (by grind), if_neg (by grind), if_neg (by grind)]
      refine bind_run.mpr ⟨_, d, Reader.u16_ok.mpr hdelta, ?_⟩
      rw [if_neg (by grind), if_neg (by grind), if_neg (by grind), if_pos h']
      exact bind_run.mpr ⟨_, c', (htype.collect _).mpr ⟨_, ⟨hlength, htypes⟩, hpasses⟩, rfl⟩
  | full hlocals hstack =>
      obtain ⟨d, hdelta, hpasses⟩ := passes_append.mp hpasses
      obtain ⟨e, hpasses, hbehind⟩ := passes_append.mp hpasses
      refine bind_run.mpr ⟨_, d, Reader.u16_ok.mpr hdelta, ?_⟩
      refine bind_run.mpr ⟨_, e, htype.list.mpr ⟨_, hlocals, hpasses⟩, ?_⟩
      exact bind_run.mpr ⟨_, c', htype.list.mpr ⟨_, hstack, hbehind⟩, rfl⟩

end Kinds

theorem reads_read (pool : Pool) : Reads (FrameForm.read pool) (Spelled pool) := by
  intro form c c'
  simp only [FrameForm.read, bind_run, Reader.u8_ok]
  constructor
  · rintro ⟨kind, d, hkind, h⟩
    obtain ⟨bytes, hspelled, hpasses⟩ := spelled_of_readKind h
    exact ⟨_, hspelled, passes_cons.mpr ⟨d, hkind, hpasses⟩⟩
  · rintro ⟨bytes, hspelled, hpasses⟩
    obtain ⟨kind, rest, rfl⟩ : ∃ kind rest, bytes = kind :: rest := by
      cases hspelled <;> exact ⟨_, _, rfl⟩
    obtain ⟨d, hkind, hpasses⟩ := passes_cons.mp hpasses
    exact ⟨kind, d, hkind, readKind_of_spelled hspelled hpasses⟩

end FrameForm

/-- The bytes that write a frame in full, behind its offset. -/
inductive StackMapFrame.Spelled (pool : Pool) : StackMapFrame → List UInt8 → Prop
  | mk {offset : UInt16} {locals stack front back}
    (hlocals : SpelledList (VerificationType.Spelled pool) locals front)
    (hstack : SpelledList (VerificationType.Spelled pool) stack back) :
    Spelled pool ⟨offset, locals, stack⟩ (bigEndianBytes 2 offset.toNat ++ (front ++ back))

end ClassFile
