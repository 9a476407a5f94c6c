import ClassFile.Declaration.Reading
import ClassFile.Proofs.Code.Foreseen

/-! Reading a class file finds nothing but foreseen errors: the verifier never catches itself breaking a
promise, and no instruction is read behind the end of the code, since its length was found wrong before. Only
the code of methods can have faults of code; everything else is read by parts that find none. -/

namespace ClassFile

open FileReader Reader

namespace Pool

theorem Entry.foreseeing_read (tag : Tag) : Foreseeing (Entry.read tag) := by
  have htext : Foreseeing Entry.readText := by
    refine .bind (foreseeing_list foreseeing_u8) fun bytes => ?_
    split
    · exact .pure _
    · exact .throw (foreseen_encoding _)
  have hindex : ∀ entry : UInt16 → Entry, Foreseeing (do return entry (← Reader.u16) : FileReader Entry) :=
    fun _ => .bind foreseeing_u16 fun _ => .pure _
  have hindices : ∀ entry : UInt16 → UInt16 → Entry,
      Foreseeing (do return entry (← Reader.u16) (← Reader.u16) : FileReader Entry) :=
    fun _ => .bind foreseeing_u16 fun _ => .bind foreseeing_u16 fun _ => .pure _
  cases tag with
  | utf8 => exact .bind htext fun _ => .pure _
  | integer => exact .bind (.bind foreseeing_u32 fun _ => .pure _) fun _ => .pure _
  | float => exact .bind foreseeing_u32 fun _ => .pure _
  | long => exact .bind (.bind foreseeing_u64 fun _ => .pure _) fun _ => .pure _
  | double => exact .bind foreseeing_u64 fun _ => .pure _
  | methodHandle => exact .bind foreseeing_u8 fun _ => .bind foreseeing_u16 fun _ => .pure _
  | classInfo => exact hindex _
  | string => exact hindex _
  | methodType => exact hindex _
  | moduleInfo => exact hindex _
  | packageInfo => exact hindex _
  | fieldRef => exact hindices _
  | methodRef => exact hindices _
  | interfaceMethodRef => exact hindices _
  | nameAndType => exact hindices _
  | dynamic => exact hindices _
  | invokeDynamic => exact hindices _

theorem foreseeing_readEntry (version : Version) (pool : Pool) (index : UInt16) :
    Foreseeing (readEntry version pool index) := by
  have htag : Foreseeing (readTag version index) := by
    refine .bind foreseeing_u8 fun byte => ?_
    split
    · exact foreseeing_ofPool _
    · split
      · exact foreseeing_ofPool _
      · exact .pure _
  exact .bind htag fun tag => .bind (finds_within _ (Entry.foreseeing_read tag)) fun _ =>
    .bind (foreseeing_ofPool _) fun _ => .pure _

theorem foreseeing_readEntriesFrom (version : Version) (count index : Nat) (pool : Pool) :
    Foreseeing (readEntriesFrom version count index pool) := by
  induction index, pool using readEntriesFrom.induct count with
  | case1 index pool hmore ih =>
      rw [readEntriesFrom, if_pos hmore]
      exact .bind (foreseeing_readEntry _ _ _) fun entry => ih entry.1 entry.2
  | case2 index pool hdone =>
      rw [readEntriesFrom, if_neg hdone]
      exact .pure _

theorem foreseeing_read (version : Version) : Foreseeing (read version) := by
  refine .bind foreseeing_u16 fun count => ?_
  split
  · exact .throw_bind (foreseen_container _)
  · exact foreseeing_readEntriesFrom _ _ _ _

theorem foreseen_validate (pool : Pool) (version : Version) :
    FailsOnly Error.Foreseen (pool.validate version) := by
  refine .forM fun indexed => ?_
  obtain ⟨index, slot⟩ := indexed
  cases slot with
  | phantom => exact .ok ()
  | vacant => exact .error (foreseen_pool _ _)
  | entry entry =>
      unfold checkSlot
      dsimp only
      split
      · exact .error (foreseen_pool _ _)
      · exact .mapError fun located => foreseen_pool _ located

end Pool

theorem FieldDecl.foreseeing_read (pool : Pool) (version : Version) (owner : ClassAccess) :
    Foreseeing (FieldDecl.read pool version owner) := by
  have hconstant : ∀ type, Foreseeing (FieldDecl.readConstant pool type) := by
    intro type
    refine foreseeing_atIndex pool.constantAt fun value => ?_
    split
    · exact .throw_bind (foreseen_structural _)
    · exact .pure _
  have hadd : ∀ so found, Foreseeing (FieldDecl.add pool so found) := by
    intro so found
    unfold FieldDecl.add
    split
    · exact .bind (hconstant _) fun _ => .bind (foreseeing_fillOnce _ _ _) fun _ => .pure _
    · exact foreseeing_atIndex pool.utf8At fun _ => .bind (foreseeing_fillOnce _ _ _) fun _ => .pure _
    · exact .pure _
    · exact .pure _
    · exact .bind foreseeing_skipRest fun _ => .pure _
  have hcomplete : ∀ field, Foreseeing (FieldDecl.complete pool version owner field) := by
    intro field
    unfold FieldDecl.complete
    split
    · exact foreseeing_failStructure _
    · exact AttributeTable.foreseeing_read _ _ _ hadd _
  exact .bind foreseeing_u16 fun _ => .bind foreseeing_u16 fun _ => .bind (foreseeing_ofPool _) fun _ =>
    .bind (foreseeing_ofPool _) fun _ => .bind foreseeing_u16 fun _ => .bind (foreseeing_ofPool _) fun _ =>
      .bind (foreseeing_ofPool _) fun _ => finds_within _ (hcomplete _)

section Methods

variable (pool : Pool) (keepBytes : Bool)

theorem MethodAttributes.finds_add (method : MethodContext) (hasCode : Bool) {so : MethodAttributes}
    (found : Attribute) (hso : ∀ code ∈ so.code, code.ReadWith pool method.version keepBytes) :
    Finds (MethodAttributes.add pool method hasCode keepBytes so found)
      fun after => ∀ code ∈ after.code, code.ReadWith pool method.version keepBytes := by
  unfold MethodAttributes.add
  split
  · have hcode : Finds (do
        let code ← Code.read pool method keepBytes
        return { so with code := ← fillOnce [.code] so.code code } : FileReader MethodAttributes)
        fun after => ∀ code ∈ after.code, code.ReadWith pool method.version keepBytes := by
      refine .bind (Code.finds_read pool method keepBytes) fun code hcode =>
        .bind (finds_fillOnce _ _ _) fun filled hfilled => ?_
      subst hfilled
      refine .pure fun found hfound => ?_
      cases hfound
      exact hcode
    split
    · exact .throw_bind (foreseen_structural _)
    · exact hcode
  · exact .after (foreseeing_list (.bind foreseeing_u16 fun _ => foreseeing_ofPool _)) fun _ =>
      .after (foreseeing_fillOnce _ _ _) fun _ => .pure hso
  · exact .after foreseeing_u16 fun _ => .after (foreseeing_ofPool _) fun _ =>
      .after (foreseeing_fillOnce _ _ _) fun _ => .pure hso
  · exact .pure hso
  · exact .pure hso
  · exact .after foreseeing_skipRest fun _ => .pure hso

theorem MethodHeader.foreseeing_read : Foreseeing (MethodHeader.read pool) :=
  .bind foreseeing_u16 fun _ => .bind foreseeing_u16 fun _ => .bind (foreseeing_ofPool _) fun _ =>
    .bind (foreseeing_ofPool _) fun _ => .bind foreseeing_u16 fun _ => .bind (foreseeing_ofPool _) fun _ =>
      .bind (foreseeing_ofPool _) fun _ => .pure _

theorem MethodDecl.finds_read (owner : MethodOwner) :
    Finds (MethodDecl.read pool owner keepBytes)
      fun method => ∀ code ∈ method.code, code.ReadWith pool owner.version keepBytes := by
  refine .after (MethodHeader.foreseeing_read pool) fun header => finds_within _ ?_
  unfold MethodDecl.complete
  split
  · exact .throw_bind (foreseen_structural _)
  · refine .bind (AttributeTable.finds_read _ _ _ (by rintro _ ⟨⟩) fun so found hso =>
      MethodAttributes.finds_add pool keepBytes (header.context owner) _ found hso)
      fun attributes hattributes => ?_
    split
    · exact .throw_bind (foreseen_structural _)
    · exact .pure hattributes

end Methods

namespace TypeAttributes

theorem foreseeing_add (pool : Pool) (so : TypeAttributes) (found : Attribute) :
    Foreseeing (add pool so found) := by
  have hinner : Foreseeing (InnerClass.read pool) :=
    foreseeing_atIndex pool.classAt fun _ => foreseeing_atIndex (Pool.optional pool.classAt) fun _ =>
      foreseeing_atIndex (Pool.optional pool.utf8At) fun _ => .bind foreseeing_u16 fun _ => .pure _
  have henclosing : Foreseeing (EnclosingMethod.read pool) := by
    refine foreseeing_atIndex pool.classAt fun _ =>
      foreseeing_atIndex (Pool.optional pool.nameAndTypeAt) fun pair => ?_
    cases pair with
    | none => exact .pure _
    | some pair => exact .bind (.bind (foreseeing_ofPool _) fun _ => .pure _) fun _ => .pure _
  have hbootstrap : Foreseeing (BootstrapMethod.read pool) :=
    foreseeing_atIndex pool.methodHandleAt fun _ =>
      .bind (foreseeing_list (.bind foreseeing_u16 fun _ => foreseeing_ofPool _)) fun _ => .pure _
  have hclasses : Foreseeing (readClasses pool) :=
    foreseeing_list (.bind foreseeing_u16 fun _ => foreseeing_ofPool _)
  unfold add
  split
  · exact foreseeing_atIndex pool.utf8At fun _ => .bind (foreseeing_fillOnce _ _ _) fun _ => .pure _
  · exact foreseeing_atIndex pool.utf8At fun _ => .bind (foreseeing_fillOnce _ _ _) fun _ => .pure _
  · exact .bind (foreseeing_list hinner) fun _ => .bind (foreseeing_fillOnce _ _ _) fun _ => .pure _
  · exact .bind henclosing fun _ => .bind (foreseeing_fillOnce _ _ _) fun _ => .pure _
  · exact .bind (foreseeing_list hbootstrap) fun _ => .bind (foreseeing_fillOnce _ _ _) fun _ => .pure _
  · exact foreseeing_atIndex pool.classAt fun _ => .bind (foreseeing_fillOnce _ _ _) fun _ => .pure _
  · exact .bind hclasses fun _ => .bind (foreseeing_fillOnce _ _ _) fun _ => .pure _
  · exact .bind hclasses fun _ => .bind (foreseeing_fillOnce _ _ _) fun _ => .pure _
  · exact .pure _
  · exact .pure _
  · exact .bind foreseeing_skipRest fun _ => .pure _

theorem foreseeing_read (pool : Pool) (version : Version) : Foreseeing (read pool version) := by
  refine .bind (AttributeTable.foreseeing_read _ _ _ (foreseeing_add pool) _) fun attributes => ?_
  split
  · exact .throw_bind (foreseen_structural _)
  · exact .pure _

end TypeAttributes

namespace SessionReader

variable {α : Type}

theorem finds_ofFileReader {reader : FileReader α} {result : α → Prop} (h : Finds reader result) :
    Finds (ofFileReader reader) result := by
  intro session _
  have hrun := h session.cursor trivial
  unfold ofFileReader
  cases hreader : reader session.cursor with
  | ok value after =>
      rw [hreader] at hrun
      exact hrun
  | error error after =>
      rw [hreader] at hrun
      exact hrun

theorem foreseeing_pass (milestone : Milestone) : Foreseeing (pass milestone) := fun _ _ => trivial

end SessionReader

namespace TypeDecl

open SessionReader

/-- A class file with a static method that has some code, one slot of stack and no local variables. -/
def sampleClass (code : List UInt8) : List UInt8 :=
  [0xca, 0xfe, 0xba, 0xbe, 0, 0, 0, 52,
    0, 8, 1, 0, 3, 0x61, 0x2f, 0x42, 7, 0, 1,
    1, 0, 16, 0x6a, 0x61, 0x76, 0x61, 0x2f, 0x6c, 0x61, 0x6e, 0x67, 0x2f, 0x4f, 0x62, 0x6a, 0x65, 0x63, 0x74,
    7, 0, 3, 1, 0, 3, 0x72, 0x75, 0x6e, 1, 0, 3, 0x28, 0x29, 0x56, 1, 0, 4, 0x43, 0x6f, 0x64, 0x65,
    0, 33, 0, 2, 0, 4, 0, 0, 0, 0, 0, 1, 0, 9, 0, 5, 0, 6, 0, 1, 0, 7]
    ++ bigEndianBytes 4 (12 + code.length) ++ [0, 1, 0, 0] ++ bigEndianBytes 4 code.length ++ code
    ++ [0, 0, 0, 0, 0, 0]

theorem foreseeing_readVersion : Foreseeing readVersion := by
  have hpreamble : Foreseeing readPreamble := by
    refine .bind foreseeing_u32 fun found => ?_
    split
    · exact .throw_bind (foreseen_container _)
    · exact .bind foreseeing_u16 fun _ => .bind foreseeing_u16 fun _ => .pure _
  refine .bind (finds_ofFileReader hpreamble) fun version => ?_
  split
  · exact finds_ofFileReader (.throw (foreseen_container _))
  · exact .bind (foreseeing_pass _) fun _ => .pure _

theorem foreseeing_readPool (version : Version) : Foreseeing (readPool version) :=
  .bind (finds_ofFileReader (Pool.foreseeing_read version)) fun pool =>
    .bind (foreseeing_pass _) fun _ =>
      .bind (finds_ofFileReader (foreseeing_ofExcept (pool.foreseen_validate version))) fun _ => .pure _

theorem foreseeing_ofCheck {ε : Type} (fault : ε → StructureFault) (result : Except ε Unit) :
    Foreseeing (ofCheck fault result) := by
  cases result with
  | ok _ => exact .pure ()
  | error found => exact foreseeing_failStructure _

theorem foreseeing_readHeader (pool : Pool) (version : Version) :
    Foreseeing (readHeader pool version) := by
  have hinterface : ∀ so, Foreseeing (readInterface pool so) := by
    intro so
    refine foreseeing_atIndex pool.classAt fun name => ?_
    split
    · exact .throw_bind (foreseen_structural _)
    · exact .pure _
  refine .bind foreseeing_u16 fun bits => .bind (foreseeing_ofCheck _ _) fun _ => ?_
  refine foreseeing_atIndex pool.classAt fun name => ?_
  split
  · exact .throw_bind (foreseen_structural _)
  · exact foreseeing_atIndex (Pool.optional pool.classAt) fun _ => .bind (foreseeing_ofCheck _ _) fun _ =>
      .bind foreseeing_u16 fun _ => .bind (.iterate hinterface _ _) fun _ => .pure _

theorem foreseeing_readFields (pool : Pool) (version : Version) (owner : ClassAccess) :
    Foreseeing (readFields pool version owner) := by
  refine .bind foreseeing_u16 fun count => .bind (.iterate (fun so => ?_) _ _) fun _ => .pure _
  refine .bind (FieldDecl.foreseeing_read pool version owner) fun field => ?_
  split
  · exact .throw_bind (foreseen_structural _)
  · exact .pure _

theorem finds_readMethods (pool : Pool) (owner : MethodOwner) (keepBytes : Bool) :
    Finds (readMethods pool owner keepBytes) fun methods =>
      ∀ method ∈ methods, ∀ code ∈ method.code, code.ReadWith pool owner.version keepBytes := by
  have hiterate : ∀ n, Finds (iterate (readMethod pool owner keepBytes) [] n) fun methods =>
      ∀ method ∈ methods, ∀ code ∈ method.code, code.ReadWith pool owner.version keepBytes := by
    refine .iterate (fun so hso => ?_) (by simp)
    refine .bind (finds_ofFileReader (MethodDecl.finds_read pool keepBytes owner)) fun method hmethod => ?_
    refine .after (foreseeing_pass _) fun _ => ?_
    split
    · exact .throw_bind (foreseen_structural _)
    · exact .pure (List.forall_mem_cons.mpr ⟨hmethod, hso⟩)
  refine .after (finds_ofFileReader foreseeing_u16) fun count => .bind (hiterate _) fun methods hmethods => ?_
  exact .pure fun method hmem => hmethods method (List.mem_reverse.mp hmem)

theorem foreseeing_checkEnd (pool : Pool) (decl : TypeDecl) : Foreseeing (checkEnd pool decl) := by
  refine .get_bind fun cursor => ?_
  dsimp only
  split
  · exact .throw_bind (foreseen_structural _)
  · split
    · exact .throw_bind (foreseen_structural _)
    · exact foreseeing_ofPool (pool.checkBootstrap _)

/-- What follows the constant pool of a class file comes to a type whose code was read with that pool. -/
theorem finds_members (version : Version) (pool : Pool) (keepBytes : Bool) :
    Finds (do
      let header ← readHeader pool version
      let fields ← readFields pool version header.access
      let methods ← readMethods pool ⟨version, header.name, header.access⟩ keepBytes
      let attributes ← within (.classAttributes header.name) (TypeAttributes.read pool version)
      let decl := ofParts version header fields methods attributes
      checkEnd pool decl
      SessionReader.pass (.type decl.name decl.fields.length decl.methods.length)
      return decl : SessionReader TypeDecl) fun decl =>
      ∀ method ∈ decl.methods, ∀ code ∈ method.code, code.ReadWith pool decl.version keepBytes := by
  refine .after (finds_ofFileReader (foreseeing_readHeader pool version)) fun header => ?_
  refine .after (finds_ofFileReader (foreseeing_readFields pool version header.access)) fun fields => ?_
  refine .bind (finds_readMethods pool ⟨version, header.name, header.access⟩ keepBytes)
    fun methods hmethods => ?_
  refine .after (finds_ofFileReader (finds_within _ (TypeAttributes.foreseeing_read pool version)))
    fun attributes => ?_
  refine .after (finds_ofFileReader (foreseeing_checkEnd pool _)) fun _ => ?_
  exact .after (foreseeing_pass _) fun _ => .pure hmethods

theorem foreseeing_read (keepBytes : Bool) : Foreseeing (read keepBytes) :=
  .bind foreseeing_readVersion fun version => .bind (foreseeing_readPool version) fun pool =>
    (finds_members version pool keepBytes).foreseeing

/-- However reading a class file fails, it is not with a fault that the verifier should have ruled out: no
promise to itself was broken, and no instruction was read behind the end of its bytes. -/
theorem foreseen_ofBytes {keepBytes : Bool} {bytes : List UInt8} {error : Error}
    (h : ofBytes keepBytes bytes = .error error) :
    ∀ pc fault, error.fault = .code pc fault →
      fault ≠ .notEnoughBytes ∧ ∀ broken, fault ≠ .internal broken := by
  have hread := foreseeing_read keepBytes ⟨Cursor.ofBytes bytes, []⟩ trivial
  unfold ofBytes trace at h
  cases hresult : read keepBytes ⟨Cursor.ofBytes bytes, []⟩ with
  | ok decl session =>
      rw [hresult] at h
      cases h
  | error found session =>
      rw [hresult] at h hread
      cases h
      exact hread

/-- The fault of a push whose operand would lie behind the end of the code. -/
theorem truncatedPush_foreseen :
    ∃ error, ofBytes false (sampleClass [0x10]) = .error error ∧
      error.fault = .code 0 (.wrongCodeLength 1 2) ∧
        ∀ pc fault, error.fault = .code pc fault →
          fault ≠ .notEnoughBytes ∧ ∀ broken, fault ≠ .internal broken := by
  have hfault : (match ofBytes false (sampleClass [0x10]) with
      | .ok _ => none
      | .error error => some error.fault) = some (.code 0 (.wrongCodeLength 1 2)) := by
    decide +kernel
  cases hrun : ofBytes false (sampleClass [0x10]) with
  | ok decl =>
      rw [hrun] at hfault
      cases hfault
  | error error =>
      rw [hrun] at hfault
      exact ⟨error, rfl, Option.some.inj hfault, foreseen_ofBytes hrun⟩

end TypeDecl

end ClassFile
