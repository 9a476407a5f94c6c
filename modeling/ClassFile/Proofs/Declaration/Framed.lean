import ClassFile.Declaration.Reading
import ClassFile.Proofs.Framing
import ClassFile.Proofs.Declaration.Foreseen

/-! Class files frame themselves. A class file that is cut off anywhere is read up to the cut and found
truncated there, and one that goes on is found to have bytes behind its end. So no class file that is accepted
goes on as another one. -/

namespace ClassFile

open FileReader Reader

variable {α : Type} {more : List UInt8} {stop : Nat}

namespace Pool

theorem Entry.framed_read (tag : Tag) : Framed more stop (Entry.read tag) := by
  have htext : Framed more stop Entry.readText := by
    refine .bind (framed_list framed_u8) fun bytes => ?_
    split
    · exact .pure _
    · exact .throw _
  have hindex : ∀ entry : UInt16 → Entry,
      Framed more stop (do return entry (← Reader.u16) : FileReader Entry) :=
    fun _ => .bind framed_u16 fun _ => .pure _
  have hindices : ∀ entry : UInt16 → UInt16 → Entry,
      Framed more stop (do return entry (← Reader.u16) (← Reader.u16) : FileReader Entry) :=
    fun _ => .bind framed_u16 fun _ => .bind framed_u16 fun _ => .pure _
  cases tag with
  | utf8 => exact .bind htext fun _ => .pure _
  | integer => exact .bind (.bind framed_u32 fun _ => .pure _) fun _ => .pure _
  | float => exact .bind framed_u32 fun _ => .pure _
  | long => exact .bind (.bind framed_u64 fun _ => .pure _) fun _ => .pure _
  | double => exact .bind framed_u64 fun _ => .pure _
  | methodHandle => exact .bind framed_u8 fun _ => .bind framed_u16 fun _ => .pure _
  | classInfo | string | methodType | moduleInfo | packageInfo => exact hindex _
  | fieldRef | methodRef | interfaceMethodRef | nameAndType | dynamic | invokeDynamic => exact hindices _

theorem framed_readEntry (version : Version) (pool : Pool) (index : UInt16) :
    Framed more stop (readEntry version pool index) := by
  have htag : Framed more stop (readTag version index) := by
    refine .bind framed_u8 fun byte => ?_
    split
    · exact framed_ofPool _
    · split
      · exact framed_ofPool _
      · exact .pure _
  exact .bind htag fun tag => .bind (framed_within _ (Entry.framed_read tag)) fun _ =>
    .bind (framed_ofPool _) fun _ => .pure _

theorem framed_readEntriesFrom (version : Version) (count index : Nat) (pool : Pool) :
    Framed more stop (readEntriesFrom version count index pool) := by
  induction index, pool using readEntriesFrom.induct count with
  | case1 index pool hmore ih =>
      rw [readEntriesFrom, if_pos hmore]
      exact .bind (framed_readEntry _ _ _) fun entry => ih entry.1 entry.2
  | case2 index pool hdone =>
      rw [readEntriesFrom, if_neg hdone]
      exact .pure _

theorem framed_read (version : Version) : Framed more stop (read version) := by
  refine .bind framed_u16 fun count => ?_
  split
  · exact .throw_bind _ _
  · exact framed_readEntriesFrom _ _ _ _

end Pool

theorem FieldDecl.framed_read (pool : Pool) (version : Version) (owner : ClassAccess) :
    Framed more stop (FieldDecl.read pool version owner) := by
  have hcomplete : ∀ field, Framed more stop (FieldDecl.complete pool version owner field) := by
    intro field
    unfold FieldDecl.complete
    split
    · exact .throw _
    · exact AttributeTable.framed_read _ _ _ _ _
  exact .bind framed_u16 fun _ => .bind framed_u16 fun _ => .bind (framed_ofPool _) fun _ =>
    .bind (framed_ofPool _) fun _ => .bind framed_u16 fun _ => .bind (framed_ofPool _) fun _ =>
      .bind (framed_ofPool _) fun _ => framed_within _ (hcomplete _)

theorem MethodDecl.framed_read (pool : Pool) (owner : MethodOwner) (keepBytes : Bool) :
    Framed more stop (MethodDecl.read pool owner keepBytes) := by
  have hheader : Framed more stop (MethodHeader.read pool) :=
    .bind framed_u16 fun _ => .bind framed_u16 fun _ => .bind (framed_ofPool _) fun _ =>
      .bind (framed_ofPool _) fun _ => .bind framed_u16 fun _ => .bind (framed_ofPool _) fun _ =>
        .bind (framed_ofPool _) fun _ => .pure _
  refine .bind hheader fun header => framed_within _ ?_
  unfold MethodDecl.complete
  split
  · exact .throw_bind _ _
  · refine .bind (AttributeTable.framed_read _ _ _ _ _) fun attributes => ?_
    split
    · exact .throw_bind _ _
    · exact .pure _

theorem TypeAttributes.framed_read (pool : Pool) (version : Version) :
    Framed more stop (TypeAttributes.read pool version) := by
  refine .bind (AttributeTable.framed_read _ _ _ _ _) fun attributes => ?_
  split
  · exact .throw_bind _ _
  · exact .pure _

/-- The same milestones were passed, and one cursor goes on where the other one ends. -/
structure Session.Continues (more : List UInt8) (stop : Nat) (short long : Session) : Prop where
  cursor : short.cursor.Continues more stop long.cursor
  milestones : short.milestones = long.milestones

namespace SessionReader

/-- A session reads data that ends too early as it reads the whole, up to the end. -/
abbrev FramedSession (more : List UInt8) (stop : Nat) (reader : SessionReader α) : Prop :=
  Lockstep (Session.Continues more stop) (Error.CutAt stop) reader

theorem framed_ofFileReader {reader : FileReader α} (h : Framed more stop reader) :
    FramedSession more stop (ofFileReader reader) := by
  intro short long hsessions
  unfold ofFileReader
  rcases (h short.cursor long.cursor hsessions.cursor).cases with
    ⟨value, s, t, hshort, hlong, hnext⟩ | ⟨error, s, hshort, ⟨value, t, hlong, hcut⟩ | ⟨_, t, hlong⟩⟩
  · rw [hshort, hlong]
    exact ⟨rfl, hnext, hsessions.milestones⟩
  · rw [hshort, hlong]
    exact hcut
  · rw [hshort, hlong]
    trivial

theorem framed_pass (milestone : Milestone) : FramedSession more stop (pass milestone) := by
  intro short long hsessions
  exact ⟨rfl, hsessions.cursor, congrArg (milestone :: ·) hsessions.milestones⟩

end SessionReader

namespace TypeDecl

open SessionReader

theorem framed_readVersion : FramedSession more stop readVersion := by
  have hpreamble : Framed more stop readPreamble := by
    refine .bind framed_u32 fun found => ?_
    split
    · exact .throw_bind _ _
    · exact .bind framed_u16 fun _ => .bind framed_u16 fun _ => .pure _
  refine .bind (framed_ofFileReader hpreamble) fun version => ?_
  split
  · exact framed_ofFileReader (.throw _)
  · exact .bind (framed_pass _) fun _ => .pure _

theorem framed_readPool (version : Version) : FramedSession more stop (readPool version) :=
  .bind (framed_ofFileReader (Pool.framed_read version)) fun _ => .bind (framed_pass _) fun _ =>
    .bind (framed_ofFileReader (framed_ofExcept _)) fun _ => .pure _

theorem framed_ofCheck {ε : Type} (fault : ε → StructureFault) (result : Except ε Unit) :
    Framed more stop (ofCheck fault result) := by
  cases result with
  | ok _ => exact .pure ()
  | error found => exact .throw _

theorem framed_readHeader (pool : Pool) (version : Version) :
    Framed more stop (readHeader pool version) := by
  have hinterface : ∀ so, Framed more stop (readInterface pool so) := by
    intro so
    refine framed_atIndex pool.classAt fun name => ?_
    split
    · exact .throw_bind _ _
    · exact .pure _
  refine .bind framed_u16 fun bits => .bind (framed_ofCheck _ _) fun _ => ?_
  refine framed_atIndex pool.classAt fun name => ?_
  split
  · exact .throw_bind _ _
  · exact framed_atIndex (Pool.optional pool.classAt) fun _ => .bind (framed_ofCheck _ _) fun _ =>
      .bind framed_u16 fun _ => .bind (.iterate hinterface _ _) fun _ => .pure _

theorem framed_readFields (pool : Pool) (version : Version) (owner : ClassAccess) :
    Framed more stop (readFields pool version owner) := by
  refine .bind framed_u16 fun count => .bind (.iterate (fun so => ?_) _ _) fun _ => .pure _
  refine .bind (FieldDecl.framed_read pool version owner) fun field => ?_
  split
  · exact .throw_bind _ _
  · exact .pure _

theorem framed_readMethods (pool : Pool) (owner : MethodOwner) (keepBytes : Bool) :
    FramedSession more stop (readMethods pool owner keepBytes) := by
  refine .bind (framed_ofFileReader framed_u16) fun count =>
    .bind (.iterate (fun so => ?_) _ _) fun _ => .pure _
  refine .bind (framed_ofFileReader (MethodDecl.framed_read pool owner keepBytes)) fun method =>
    .bind (framed_pass _) fun _ => ?_
  split
  · exact .throw_bind _ _
  · exact .pure _

/-- Reads everything up to the end of a class file, and comes to its pool and the type. -/
def readParts (keepBytes : Bool) : SessionReader (Pool × TypeDecl) := do
  let version ← readVersion
  let pool ← readPool version
  let header ← readHeader pool version
  let fields ← readFields pool version header.access
  let methods ← readMethods pool ⟨version, header.name, header.access⟩ keepBytes
  let attributes ← within (.classAttributes header.name) (TypeAttributes.read pool version)
  return (pool, ofParts version header fields methods attributes)

/-- Checks that everything was read. -/
def close (parts : Pool × TypeDecl) : SessionReader TypeDecl := do
  checkEnd parts.1 parts.2
  SessionReader.pass (.type parts.2.name parts.2.fields.length parts.2.methods.length)
  return parts.2

theorem read_eq (keepBytes : Bool) : read keepBytes = readParts keepBytes >>= close := by
  simp only [readParts, bind_assoc, pure_bind]
  rfl

theorem framed_readParts (keepBytes : Bool) : FramedSession more stop (readParts keepBytes) :=
  .bind framed_readVersion fun version => .bind (framed_readPool version) fun pool =>
    .bind (framed_ofFileReader (framed_readHeader pool version)) fun header =>
      .bind (framed_ofFileReader (framed_readFields pool version header.access)) fun _ =>
        .bind (framed_readMethods pool _ keepBytes) fun _ =>
          .bind (framed_ofFileReader (framed_within _ (TypeAttributes.framed_read pool version))) fun _ =>
            .pure _

section Close

variable {keepBytes : Bool} {bytes : List UInt8} {decl : TypeDecl} {parts : Pool × TypeDecl} {error : Error}
  {session session' : Session}

theorem checkEnd_trailing {cursor : Cursor} (h : cursor.rest ≠ []) (pool : Pool) (decl : TypeDecl) :
    checkEnd pool decl cursor = .error ⟨[], .structural (.trailingBytes cursor.remaining)⟩ cursor := by
  have hend : (!cursor.isEmpty) = true := by
    rw [Cursor.isEmpty, List.isEmpty_eq_false_iff.mpr h]
    rfl
  rw [checkEnd, get_bind_run]
  dsimp only
  rw [if_pos hend]
  rfl

theorem close_trailing (h : session.cursor.rest ≠ []) (parts : Pool × TypeDecl) :
    close parts session =
      .error ⟨[], .structural (.trailingBytes session.cursor.remaining)⟩ session := by
  have hcheck : ofFileReader (checkEnd parts.1 parts.2) session =
      .error ⟨[], .structural (.trailingBytes session.cursor.remaining)⟩ session := by
    rw [ofFileReader, checkEnd_trailing h]
  change EStateM.bind (ofFileReader (checkEnd parts.1 parts.2)) _ session = _
  rw [EStateM.bind, hcheck]

theorem ofBytes_eq (keepBytes : Bool) (bytes : List UInt8) :
    ofBytes keepBytes bytes =
      match readParts keepBytes ⟨Cursor.ofBytes bytes, []⟩ with
      | .error error _ => .error error
      | .ok parts session =>
        match close parts session with
        | .error error _ => .error error
        | .ok decl _ => .ok decl := by
  have hread : read keepBytes ⟨Cursor.ofBytes bytes, []⟩ =
      EStateM.bind (readParts keepBytes) close ⟨Cursor.ofBytes bytes, []⟩ := by
    rw [read_eq]
    rfl
  rw [ofBytes, trace, hread, EStateM.bind]
  cases readParts keepBytes ⟨Cursor.ofBytes bytes, []⟩ with
  | error error session => rfl
  | ok parts session => cases hclose : close parts session <;> simp only [hclose]

/-- Nothing is left when a class file is accepted. -/
theorem readParts_of_ok (h : ofBytes keepBytes bytes = .ok decl) :
    ∃ parts session, readParts keepBytes ⟨Cursor.ofBytes bytes, []⟩ = .ok parts session ∧
      session.cursor.rest = [] := by
  rw [ofBytes_eq] at h
  cases hparts : readParts keepBytes ⟨Cursor.ofBytes bytes, []⟩ with
  | error error session =>
      rw [hparts] at h
      cases h
  | ok parts session =>
      refine ⟨parts, session, rfl, ?_⟩
      by_contra hrest
      simp only [hparts, close_trailing hrest] at h
      cases h

theorem ofBytes_error (h : readParts keepBytes ⟨Cursor.ofBytes bytes, []⟩ = .error error session) :
    ofBytes keepBytes bytes = .error error := by
  rw [ofBytes_eq, h]

theorem ofBytes_trailing (h : readParts keepBytes ⟨Cursor.ofBytes bytes, []⟩ = .ok parts session)
    (hrest : session.cursor.rest ≠ []) :
    ofBytes keepBytes bytes = .error ⟨[], .structural (.trailingBytes session.cursor.remaining)⟩ := by
  simp only [ofBytes_eq, h, close_trailing hrest]

/-- A file and one that it goes on as are read in lockstep. -/
theorem readParts_agree (keepBytes : Bool) (front more : List UInt8) :
    Agree (Session.Continues more front.length) (Error.CutAt front.length)
      (readParts keepBytes ⟨Cursor.ofBytes front, []⟩)
      (readParts keepBytes ⟨Cursor.ofBytes (front ++ more), []⟩) := by
  have hcursors : Cursor.Continues more front.length (Cursor.ofBytes front)
      (Cursor.ofBytes (front ++ more)) := ⟨rfl, Nat.zero_add _⟩
  exact framed_readParts keepBytes _ _ ⟨hcursors, rfl⟩

/-- An accepted class file that is cut off is truncated where it was cut. -/
theorem ofBytes_cut {front : List UInt8} (h : ofBytes keepBytes (front ++ more) = .ok decl)
    (hmore : more ≠ []) :
    ∃ error, ofBytes keepBytes front = .error error ∧ error.CutAt front.length := by
  obtain ⟨parts, session, hlong, hrest⟩ := readParts_of_ok h
  rcases (readParts_agree keepBytes front more).of_second hlong with ⟨short, _, hsessions⟩ | hcut
  · -- the whole file would go on behind what was read of it
    rw [hsessions.cursor.long] at hrest
    exact absurd (List.append_eq_nil_iff.mp hrest).2 hmore
  · obtain ⟨error, _, hshort, hcut⟩ := hcut
    exact ⟨error, ofBytes_error hshort, hcut⟩

theorem ofBytes_append (h : ofBytes keepBytes bytes = .ok decl) (hmore : more ≠ []) :
    ofBytes keepBytes (bytes ++ more) = .error ⟨[], .structural (.trailingBytes more.length)⟩ := by
  obtain ⟨parts, session, hshort, hrest⟩ := readParts_of_ok h
  obtain ⟨long, hlong, hsessions⟩ := (readParts_agree keepBytes bytes more).of_first hshort
  have hleft : long.cursor.rest = more := by
    rw [hsessions.cursor.long, hrest, List.nil_append]
  rw [ofBytes_trailing hlong (hleft ▸ hmore), Cursor.remaining, hleft]

end Close

/-- Class files frame themselves exactly. An accepted one is truncated wherever it is cut off, and has bytes
behind its end if it goes on, so that none of them is a prefix of another. -/
theorem ofBytes_framed {keepBytes : Bool} {bytes : List UInt8} {decl : TypeDecl}
    (h : ofBytes keepBytes bytes = .ok decl) :
    (∀ front, front <+: bytes → front ≠ bytes →
      ∃ error offset wanted, ofBytes keepBytes front = .error error ∧
        error.fault = .truncated offset wanted ∧ offset ≤ front.length ∧
          front.length < offset + wanted) ∧
    (∀ more, more ≠ [] → ∃ error, ofBytes keepBytes (bytes ++ more) = .error error ∧
      error.fault = .structural (.trailingBytes more.length)) ∧
    ∀ other otherDecl, ofBytes keepBytes other = .ok otherDecl → bytes <+: other → other = bytes := by
  refine ⟨?_, ?_, ?_⟩
  · rintro front ⟨more, rfl⟩ hstrict
    have hmore : more ≠ [] := by
      rintro rfl
      exact hstrict (List.append_nil front).symm
    obtain ⟨error, herror, offset, wanted, hfault, hcut⟩ := ofBytes_cut h hmore
    exact ⟨error, offset, wanted, herror, hfault, hcut⟩
  · intro more hmore
    exact ⟨_, ofBytes_append h hmore, rfl⟩
  · rintro other otherDecl hother ⟨more, rfl⟩
    by_cases hmore : more = []
    · rw [hmore, List.append_nil]
    · rw [ofBytes_append h hmore] at hother
      cases hother

/-- A class file whose method just returns, cut off within the contents of its only attribute. -/
theorem sampleClass_framed :
    ∃ decl, ofBytes false (sampleClass [0xb1]) = .ok decl ∧
      ∃ error offset wanted, ofBytes false ((sampleClass [0xb1]).take 90) = .error error ∧
        error.fault = .truncated offset wanted ∧ offset ≤ 90 ∧ 90 < offset + wanted := by
  have haccepted : (ofBytes false (sampleClass [0xb1])).toBool = true := by decide +kernel
  cases hrun : ofBytes false (sampleClass [0xb1]) with
  | error error =>
      rw [hrun] at haccepted
      cases haccepted
  | ok decl =>
      have hlength : ((sampleClass [0xb1]).take 90).length = 90 := by decide +kernel
      have hstrict : (sampleClass [0xb1]).take 90 ≠ sampleClass [0xb1] := by decide +kernel
      obtain ⟨error, offset, wanted, herror, hfault, hcut⟩ :=
        (ofBytes_framed hrun).1 _ (List.take_prefix 90 _) hstrict
      rw [hlength] at hcut
      exact ⟨decl, rfl, error, offset, wanted, herror, hfault, hcut⟩

end TypeDecl

end ClassFile
