import ClassFile.Proofs.Attribute.Placeless

/-! The contents of a `Code` attribute as bytes. The limits, the instructions and the exception handlers stand
ahead of a table of attributes, and what is found in them depends on the table only by what its attributes
say. -/

namespace ClassFile

open FileReader Reader

/-- An exception handler as it is written. The index of its type is zero if it catches everything. -/
structure HandlerEntry where
  start : UInt16
  stop : UInt16
  handler : UInt16
  catchIndex : UInt16

namespace HandlerEntry

/-- The bytes that write an exception handler. -/
def bytes (entry : HandlerEntry) : List UInt8 :=
  bigEndianBytes 2 entry.start.toNat ++ (bigEndianBytes 2 entry.stop.toNat ++
    (bigEndianBytes 2 entry.handler.toNat ++ bigEndianBytes 2 entry.catchIndex.toNat))

/-- The exception handler that an entry stands for. -/
def resolve? (pool : Pool) (entry : HandlerEntry) : Option ExceptionHandler :=
  (Pool.optional pool.classAt entry.catchIndex).toOption.map fun catchType =>
    ⟨entry.start, entry.stop, entry.handler, catchType⟩

theorem parse_read (pool : Pool) (entry : HandlerEntry) (more : List UInt8) :
    parse (ExceptionHandler.read pool) (entry.bytes ++ more) =
      (entry.resolve? pool).map fun handler => (handler, more) := by
  unfold parse ExceptionHandler.read
  rw [bytes, List.append_assoc, List.append_assoc, List.append_assoc, Cursor.ofBytes, u16_bind_run,
    u16_bind_run, u16_bind_run, u16_bind_run, resolve?]
  cases Pool.optional pool.classAt entry.catchIndex <;> rfl

theorem read_spells {pool : Pool} {handler : ExceptionHandler} {data more : List UInt8}
    (h : parse (ExceptionHandler.read pool) data = some (handler, more)) :
    ∃ entry : HandlerEntry, data = entry.bytes ++ more := by
  obtain ⟨after, hrun, rfl⟩ := parse_eq_some.mp h
  obtain ⟨start, c, hstart, hrun⟩ := bind_run.mp hrun
  obtain ⟨stop, c', hstop, hrun⟩ := bind_run.mp hrun
  obtain ⟨target, c'', htarget, hrun⟩ := bind_run.mp hrun
  obtain ⟨index, c''', hindex, hrun⟩ := bind_run.mp hrun
  have hafter : after = c''' := by
    cases hcatch : Pool.optional pool.classAt index with
    | error located =>
        rw [hcatch] at hrun
        cases hrun
    | ok catchType =>
        rw [hcatch] at hrun
        cases hrun
        rfl
  subst hafter
  refine ⟨⟨start, stop, target, index⟩, ?_⟩
  change (Cursor.ofBytes data).rest = _
  rw [u16_run_ok hstart, u16_run_ok hstop, u16_run_ok htarget, u16_run_ok hindex, bytes, List.append_assoc,
    List.append_assoc, List.append_assoc]

end HandlerEntry

/-- What stands ahead of the attributes of code, as it is written. -/
structure CodeFront where
  maxStack : UInt16
  maxLocals : UInt16
  code : List UInt8
  handlers : List HandlerEntry
  codeFits : code.length < 2 ^ 32
  handlersFit : handlers.length < 65536

namespace CodeFront

/-- The bytes that are written ahead of the attributes. -/
def bytes (front : CodeFront) : List UInt8 :=
  bigEndianBytes 2 front.maxStack.toNat ++ (bigEndianBytes 2 front.maxLocals.toNat ++
    (bigEndianBytes 4 front.code.length ++ (front.code ++
      (bigEndianBytes 2 front.handlers.length ++ front.handlers.flatMap HandlerEntry.bytes))))

/-- The code that is read, if its attributes say something. -/
def raw? (front : CodeFront) (pool : Pool) (so : CodeAttributes) : Option RawCode :=
  if front.code.length = 0 ∨ 0xffff < front.code.length then none
  else (front.handlers.mapM (HandlerEntry.resolve? pool)).map fun handlers =>
    ⟨front.maxStack, front.maxLocals, front.code, handlers, so⟩

end CodeFront

namespace RawCode

variable (pool : Pool) (method : MethodContext)

/-- Reads the attributes of code. -/
def readAttributes (codeLength : UInt16) : FileReader CodeAttributes :=
  AttributeTable.read pool .inCode method.version (CodeAttributes.add pool method codeLength) .none

/-- Reads what stands behind the length of the code. -/
def readBody (maxStack maxLocals : UInt16) (length : UInt32) : FileReader RawCode := do
  if length = 0 ∨ 0xffff < length then FileReader.failStructure (.codeLength length)
  let bytes ← Reader.bytes length.toNat
  let handlers ← Reader.list (ExceptionHandler.read pool)
  let attributes ← readAttributes pool method length.toUInt16
  return ⟨maxStack, maxLocals, bytes, handlers, attributes⟩

theorem read_eq : read pool method = (do readBody pool method (← u16) (← u16) (← u32)) := rfl

theorem placeless_readAttributes (codeLength : UInt16) : Placeless (readAttributes pool method codeLength) :=
  AttributeTable.placeless_read (CodeAttributes.placeless_add pool method codeLength) _

theorem placeless_readTables (maxStack maxLocals : UInt16) (length : UInt32) (bytes : List UInt8)
    (handlers : List ExceptionHandler) :
    Placeless (do
      let attributes ← readAttributes pool method length.toUInt16
      return (⟨maxStack, maxLocals, bytes, handlers, attributes⟩ : RawCode)) :=
  .bind (placeless_readAttributes pool method _) fun _ => .pure _

theorem placeless_readBody (maxStack maxLocals : UInt16) (length : UInt32) :
    Placeless (readBody pool method maxStack maxLocals length) := by
  unfold readBody
  split
  · exact .throw_bind _ _
  · exact .bind (placeless_bytes _) fun _ =>
      .bind (placeless_list (ExceptionHandler.placeless_read pool)) fun _ =>
        placeless_readTables pool method _ _ _ _ _

theorem parse_readBody (front : CodeFront) (data : List UInt8) :
    parse (readBody pool method front.maxStack front.maxLocals (UInt32.ofNat front.code.length))
        (front.code ++ (bigEndianBytes 2 front.handlers.length ++
          (front.handlers.flatMap HandlerEntry.bytes ++ data))) =
      (parse (readAttributes pool method (UInt16.ofNat front.code.length)) data).bind fun found =>
        (front.raw? pool found.1).map fun raw => (raw, found.2) := by
  have hlength : (UInt32.ofNat front.code.length).toNat = front.code.length :=
    UInt32.toNat_ofNat_of_lt' front.codeFits
  have hrange : (UInt32.ofNat front.code.length = 0 ∨ 0xffff < UInt32.ofNat front.code.length) ↔
      (front.code.length = 0 ∨ 0xffff < front.code.length) := by
    rw [← UInt32.toNat_inj, UInt32.lt_iff_toNat_lt, hlength]
    rfl
  unfold readBody
  by_cases h : front.code.length = 0 ∨ 0xffff < front.code.length
  · have hraw : ∀ so, front.raw? pool so = none := fun so => if_pos h
    rw [if_pos (hrange.mpr h)]
    simp only [hraw]
    cases parse (readAttributes pool method (UInt16.ofNat front.code.length)) data <;> rfl
  · have hraw : ∀ so, front.raw? pool so = (front.handlers.mapM (HandlerEntry.resolve? pool)).map
        fun handlers => ⟨front.maxStack, front.maxLocals, front.code, handlers, so⟩ := fun so => if_neg h
    have hhandlers := ExceptionHandler.placeless_read pool
    simp only [hraw]
    rw [if_neg (mt hrange.mp h),
      parse_bind_some (fun _ => .bind (placeless_list hhandlers) fun _ =>
        placeless_readTables pool method _ _ _ _ _) (parse_bytes_append hlength.symm _),
      parse_bind _ fun _ => placeless_readTables pool method _ _ _ _ _,
      parse_list hhandlers (HandlerEntry.parse_read pool) front.handlersFit]
    cases front.handlers.mapM (HandlerEntry.resolve? pool) with
    | none => cases parse (readAttributes pool method (UInt16.ofNat front.code.length)) data <;> rfl
    | some handlers =>
        rw [Option.map_some, Option.bind_some, parse_bind _ fun _ => .pure _, UInt32.toUInt16_ofNat']
        rfl

/-- What is read ahead of the attributes, and what they say. -/
theorem parse_read (front : CodeFront) (data : List UInt8) :
    parse (read pool method) (front.bytes ++ data) =
      (parse (readAttributes pool method (UInt16.ofNat front.code.length)) data).bind fun found =>
        (front.raw? pool found.1).map fun raw => (raw, found.2) := by
  rw [read_eq, CodeFront.bytes]
  simp only [List.append_assoc]
  rw [parse_bind_some (fun _ => .bind placeless_u16 fun _ => .bind placeless_u32 fun _ =>
      placeless_readBody pool method _ _ _) (parse_u16 _ _),
    parse_bind_some (fun _ => .bind placeless_u32 fun _ => placeless_readBody pool method _ _ _)
      (parse_u16 _ _),
    parse_bind_some (fun _ => placeless_readBody pool method _ _ _) (parse_u32_ofNat front.codeFits _),
    parse_readBody]

/-- Code that is read was written as a front and a table of attributes. -/
theorem read_spells {raw : RawCode} {data more : List UInt8}
    (h : parse (read pool method) data = some (raw, more)) :
    ∃ (front : CodeFront) (attributes : List (FramedAttribute pool)), attributes.length < 65536 ∧
      data = front.bytes ++ (FramedAttribute.table attributes ++ more) := by
  rw [read_eq] at h
  obtain ⟨maxStack, data₁, hstack, h⟩ := parse_bind_ok (fun _ => .bind placeless_u16 fun _ =>
    .bind placeless_u32 fun _ => placeless_readBody pool method _ _ _) h
  obtain ⟨maxLocals, data₂, hlocals, h⟩ := parse_bind_ok (fun _ =>
    .bind placeless_u32 fun _ => placeless_readBody pool method _ _ _) h
  obtain ⟨length, data₃, hlength, h⟩ := parse_bind_ok (fun _ => placeless_readBody pool method _ _ _) h
  have hhandlers := ExceptionHandler.placeless_read pool
  unfold readBody at h
  split at h
  · cases h
  obtain ⟨code, data₄, hcode, h⟩ := parse_bind_ok (fun _ => .bind (placeless_list hhandlers) fun _ =>
    placeless_readTables pool method _ _ _ _ _) h
  obtain ⟨handlers, data₅, hlist, h⟩ := parse_bind_ok (fun _ =>
    placeless_readTables pool method _ _ _ _ _) h
  obtain ⟨so, data₆, htable, h⟩ := parse_bind_ok (fun _ => .pure _) h
  cases h
  obtain ⟨entries, hcount, rfl⟩ := parse_list_ok hhandlers HandlerEntry.read_spells hlist
  obtain ⟨attributes, hattributes, rfl⟩ :=
    AttributeTable.read_spells (CodeAttributes.placeless_add pool method _) htable
  obtain ⟨rfl, hfits⟩ := parse_bytes_ok hcode
  have hnumber := parse_u32_ok hlength
  rw [← hfits] at hnumber
  refine ⟨⟨maxStack, maxLocals, code, entries, hfits ▸ length.toNat_lt, hcount⟩, attributes, hattributes, ?_⟩
  rw [parse_u16_ok hstack, parse_u16_ok hlocals, hnumber, CodeFront.bytes]
  simp only [List.append_assoc]
  rfl

end RawCode

section Found

variable (pool : Pool) (method : MethodContext) (keepBytes : Bool) (front : CodeFront)

/-- What the attributes behind a front say. -/
def CodeFront.said? (attributes : List (FramedAttribute pool)) : Option CodeAttributes :=
  attributes.foldlM (AttributeTable.said? .inCode method.version
    (CodeAttributes.add pool method (UInt16.ofNat front.code.length))) .none

/-- The code that is found in a front and what attributes say. -/
def CodeFront.code? (so : CodeAttributes) : Option Code :=
  (front.raw? pool so).bind fun raw => (raw.check pool method keepBytes).toOption

/-- Code is found in its front and what its attributes say. -/
theorem Code.parse_read {attributes : List (FramedAttribute pool)} (hcount : attributes.length < 65536)
    (more : List UInt8) :
    parse (Code.read pool method keepBytes) (front.bytes ++ (FramedAttribute.table attributes ++ more)) =
      ((front.said? pool method attributes).bind (front.code? pool method keepBytes)).map fun code =>
        (code, more) := by
  have htable : parse (RawCode.readAttributes pool method (UInt16.ofNat front.code.length))
      (FramedAttribute.table attributes ++ more) =
        (front.said? pool method attributes).map fun so => (so, more) :=
    AttributeTable.parse_read (CodeAttributes.placeless_add pool method _) .none hcount more
  unfold Code.read
  rw [parse_bind _ fun _ => placeless_ofExcept _, RawCode.parse_read, htable]
  cases front.said? pool method attributes with
  | none => rfl
  | some so =>
      rw [Option.map_some, Option.bind_some, Option.bind_some, CodeFront.code?]
      cases front.raw? pool so with
      | none => rfl
      | some raw =>
          rw [Option.map_some, Option.bind_some, Option.bind_some, parse_ofExcept]

end Found

end ClassFile
