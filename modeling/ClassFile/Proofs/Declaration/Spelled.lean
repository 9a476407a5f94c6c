import ClassFile.Proofs.Declaration.Members

/-! Reading a class file as a whole. One that is accepted was written as a class file, and the declared type
is told by what is written: its header, its members in their order, and what its attributes say. -/

namespace ClassFile

open FileReader Reader

variable {α : Type} {pool : Pool}

/-- Two fields with different names or types. -/
def FieldDecl.Apart (field other : FieldDecl) : Prop := ¬(field.name = other.name ∧ field.type = other.type)

/-- Two methods with different names or descriptors. -/
def MethodDecl.Apart (method other : MethodDecl) : Prop :=
  ¬(method.name = other.name ∧ method.descriptor = other.descriptor)

namespace SessionReader

variable {s s' : Session}

theorem ofFileReader_ok {reader : FileReader α} {a : α} :
    ofFileReader reader s = .ok a s' ↔ ∃ c, reader s.cursor = .ok a c ∧ { s with cursor := c } = s' := by
  unfold ofFileReader
  cases reader s.cursor with
  | error error c => exact ⟨nofun, nofun⟩
  | ok b c =>
      constructor
      · rintro ⟨⟩
        exact ⟨c, rfl, rfl⟩
      · rintro ⟨_, ⟨⟩, rfl⟩
        rfl

end SessionReader

namespace TypeDecl

open SessionReader

theorem readInterface_spells {so after : List ClassName} {c c' : Cursor}
    (h : readInterface pool so c = .ok after c') :
    ∃ (index : UInt16) (name : ClassName), after = name :: so ∧ (∀ other ∈ so, other ≠ name) ∧
      c.rest = bigEndianBytes 2 index.toNat ++ c'.rest ∧ pool.classAt index = .ok name := by
  obtain ⟨index, d, hindex, h⟩ := bind_run.mp h
  obtain ⟨name, d', hname, h⟩ := bind_run.mp h
  obtain ⟨hresolve, rfl⟩ := liftPool_run.mp hname
  split at h
  · cases h
  · rename_i hnew
    cases h
    refine ⟨index, name, rfl, ?_, u16_run_ok hindex, hresolve⟩
    rintro other hother rfl
    exact hnew (List.contains_iff_mem.mpr hother)

theorem readField_spells {version : Version} {owner : ClassAccess} {so after : List FieldDecl}
    {c c' : Cursor} (h : readField pool version owner so c = .ok after c') :
    ∃ (m : MemberLayout pool) (field : FieldDecl), after = field :: so ∧
      (∀ other ∈ so, other.Apart field) ∧ c.rest = m.bytes ++ c'.rest ∧ field.ReadFrom version owner m := by
  obtain ⟨field, d, hfield, h⟩ := bind_run.mp h
  obtain ⟨m, hbytes, hread⟩ := FieldDecl.read_spells hfield
  split at h
  · cases h
  · rename_i hnew
    cases h
    refine ⟨m, field, rfl, fun other hother hsame => hnew ?_, hbytes, hread⟩
    exact List.any_eq_true.mpr ⟨other, hother, decide_eq_true hsame⟩

theorem readMethod_spells {owner : MethodOwner} {keepBytes : Bool} {so after : List MethodDecl}
    {s s' : Session} (h : readMethod pool owner keepBytes so s = .ok after s') :
    ∃ (m : MemberLayout pool) (method : MethodDecl), after = method :: so ∧
      (∀ other ∈ so, other.Apart method) ∧ s.cursor.rest = m.bytes ++ s'.cursor.rest ∧
      method.ReadFrom owner keepBytes m := by
  obtain ⟨method, t, hmethod, h⟩ := bind_run.mp h
  obtain ⟨c, hrun, rfl⟩ := ofFileReader_ok.mp hmethod
  obtain ⟨m, hbytes, hread⟩ := MethodDecl.read_spells hrun
  obtain ⟨_, t', hpass, h⟩ := bind_run.mp h
  cases hpass
  split at h
  · cases h
  · rename_i hnew
    cases h
    refine ⟨m, method, rfl, fun other hother hsame => hnew ?_, hbytes, hread⟩
    exact List.any_eq_true.mpr ⟨other, hother, decide_eq_true hsame⟩

theorem ofCheck_ok {ε : Type} {fault : ε → StructureFault} {result : Except ε Unit} {c c' : Cursor}
    (h : ofCheck fault result c = .ok () c') : c = c' := by
  cases result with
  | error found => cases h
  | ok _ => exact (pure_run.mp h).2

theorem readHeader_spells {version : Version} {header : Header} {c c' : Cursor}
    (h : readHeader pool version c = .ok header c') :
    ∃ (access name superClass : UInt16) (interfaces : List UInt16), interfaces.length < 65536 ∧
      c.rest = bigEndianBytes 2 access.toNat ++ (bigEndianBytes 2 name.toNat ++
        (bigEndianBytes 2 superClass.toNat ++ ((bigEndianBytes 2 interfaces.length ++
          interfaces.flatMap fun index => bigEndianBytes 2 index.toNat) ++ c'.rest))) ∧
      header.access = .ofBits access ∧ pool.classAt name = .ok header.name ∧
      Pool.optional pool.classAt superClass = .ok header.superClass ∧
      List.Forall₂ (fun index name => pool.classAt index = .ok name) interfaces header.interfaces ∧
      header.interfaces.Pairwise (· ≠ ·) := by
  obtain ⟨access, c₁, haccess, h⟩ := bind_run.mp h
  obtain ⟨_, c₂, hcheck, h⟩ := bind_run.mp h
  obtain ⟨nameIndex, c₃, hnameIndex, h⟩ := bind_run.mp h
  obtain ⟨name, c₄, hname, h⟩ := bind_run.mp h
  cases ofCheck_ok hcheck
  obtain ⟨hnamed, rfl⟩ := liftPool_run.mp hname
  split at h
  · cases h
  obtain ⟨superIndex, c₅, hsuperIndex, h⟩ := bind_run.mp h
  obtain ⟨superClass, c₆, hsuper, h⟩ := bind_run.mp h
  obtain ⟨hsuperClass, rfl⟩ := liftPool_run.mp hsuper
  obtain ⟨_, c₇, hcheckSuper, h⟩ := bind_run.mp h
  cases ofCheck_ok hcheckSuper
  obtain ⟨count, c₈, hcount, h⟩ := bind_run.mp h
  obtain ⟨found, c₉, hfound, h⟩ := bind_run.mp h
  cases h
  obtain ⟨interfaces, names, rfl, hlength, hbytes, hall, hpairs, _⟩ :=
    iterate_spells Cursor.rest readInterface_spells hfound
  have hsmall : interfaces.length < 65536 := hlength ▸ count.toNat_lt
  refine ⟨access, nameIndex, superIndex, interfaces, hsmall, ?_, rfl, hnamed, hsuperClass, ?_, ?_⟩
  · rw [u16_run_ok haccess, u16_run_ok hnameIndex, u16_run_ok hsuperIndex, u16_run_ok hcount, hbytes,
      hlength, List.append_assoc]
  · simpa using hall
  · simpa using hpairs

theorem readFields_spells {version : Version} {owner : ClassAccess} {fields : List FieldDecl}
    {c c' : Cursor} (h : readFields pool version owner c = .ok fields c') :
    ∃ members : List (MemberLayout pool), members.length < 65536 ∧
      c.rest = MemberLayout.list members ++ c'.rest ∧
      List.Forall₂ (fun m field => FieldDecl.ReadFrom version owner m field) members fields ∧
      fields.Pairwise FieldDecl.Apart := by
  obtain ⟨count, d, hcount, h⟩ := bind_run.mp h
  obtain ⟨found, d', hfound, h⟩ := bind_run.mp h
  cases h
  obtain ⟨members, fields, rfl, hlength, hbytes, hall, hpairs, _⟩ :=
    iterate_spells Cursor.rest readField_spells hfound
  rw [List.append_nil, List.reverse_reverse]
  refine ⟨members, hlength ▸ count.toNat_lt, ?_, hall, hpairs⟩
  rw [u16_run_ok hcount, hbytes, MemberLayout.list, hlength, List.append_assoc]

theorem readMethods_spells {owner : MethodOwner} {keepBytes : Bool} {methods : List MethodDecl}
    {s s' : Session} (h : readMethods pool owner keepBytes s = .ok methods s') :
    ∃ members : List (MemberLayout pool), members.length < 65536 ∧
      s.cursor.rest = MemberLayout.list members ++ s'.cursor.rest ∧
      List.Forall₂ (fun m method => MethodDecl.ReadFrom owner keepBytes m method) members methods ∧
      methods.Pairwise MethodDecl.Apart := by
  obtain ⟨count, t, hcount, h⟩ := bind_run.mp h
  obtain ⟨d, hcounted, rfl⟩ := ofFileReader_ok.mp hcount
  obtain ⟨found, t', hfound, h⟩ := bind_run.mp h
  cases h
  obtain ⟨members, methods, rfl, hlength, hbytes, hall, hpairs, _⟩ :=
    iterate_spells (fun s : Session => s.cursor.rest) readMethod_spells hfound
  rw [List.append_nil, List.reverse_reverse]
  refine ⟨members, hlength ▸ count.toNat_lt, ?_, hall, hpairs⟩
  rw [u16_run_ok hcounted, hbytes, MemberLayout.list, hlength, List.append_assoc]

/-- A declared type was read from a class file as it is written. -/
structure ReadFrom (keepBytes : Bool) (layout : ClassLayout) (decl : TypeDecl) : Prop where
  version : decl.version = layout.version
  validated : layout.pool.validate layout.version = .ok ()
  access : decl.access = .ofBits layout.access
  name : layout.pool.classAt layout.name = .ok decl.name
  superClass : Pool.optional layout.pool.classAt layout.superClass = .ok decl.superClass
  interfaces : List.Forall₂ (fun index name => layout.pool.classAt index = .ok name) layout.interfaces
    decl.interfaces
  interfacesApart : decl.interfaces.Pairwise (· ≠ ·)
  fields : List.Forall₂ (fun m field => FieldDecl.ReadFrom layout.version decl.access m field) layout.fields
    decl.fields
  fieldsApart : decl.fields.Pairwise FieldDecl.Apart
  methods : List.Forall₂
    (fun m method => MethodDecl.ReadFrom ⟨layout.version, decl.name, decl.access⟩ keepBytes m method)
    layout.methods decl.methods
  methodsApart : decl.methods.Pairwise MethodDecl.Apart
  said : ∃ so : TypeAttributes, layout.attributes.foldlM (AttributeTable.said? .inClass layout.version
      (TypeAttributes.add layout.pool)) .none = some so ∧
    decl.bootstrapMethods = so.bootstrapMethods.getD []
  bootstrapCount : decl.bootstrapMethods.length ≤ maxBootstrapMethods
  bootstraps : layout.pool.checkBootstrap (UInt16.ofNat decl.bootstrapMethods.length) = .ok ()

theorem readPreamble_spells {version : Version} {c c' : Cursor} (h : readPreamble c = .ok version c') :
    c.rest = bigEndianBytes 4 magic.toNat ++ (bigEndianBytes 2 version.minor.toNat ++
      (bigEndianBytes 2 version.major.toNat ++ c'.rest)) := by
  obtain ⟨number, d, hnumber, h⟩ := bind_run.mp h
  split at h
  · cases h
  rename_i hmagic
  obtain ⟨minor, d', hminor, h⟩ := bind_run.mp h
  obtain ⟨major, d'', hmajor, h⟩ := bind_run.mp h
  cases h
  rw [(u32_ok.mp hnumber).1, u16_run_ok hminor, u16_run_ok hmajor, not_not.mp hmagic]

theorem readVersion_spells {version : Version} {s s' : Session} (h : readVersion s = .ok version s') :
    s.cursor.rest = bigEndianBytes 4 magic.toNat ++ (bigEndianBytes 2 version.minor.toNat ++
      (bigEndianBytes 2 version.major.toNat ++ s'.cursor.rest)) := by
  obtain ⟨found, t, hpreamble, h⟩ := bind_run.mp h
  obtain ⟨c, hread, rfl⟩ := ofFileReader_ok.mp hpreamble
  cases hrelease : found.release with
  | error fault =>
      rw [hrelease] at h
      cases h
  | ok release =>
      rw [hrelease] at h
      cases h
      exact readPreamble_spells hread

theorem readPool_spells {version : Version} {s s' : Session} (h : readPool version s = .ok pool s') :
    pool.Writable version ∧ s.cursor.rest = pool.encode ++ s'.cursor.rest ∧
      pool.validate version = .ok () := by
  obtain ⟨found, t, hpool, h⟩ := bind_run.mp h
  obtain ⟨c, hread, rfl⟩ := ofFileReader_ok.mp hpool
  obtain ⟨hwritable, hpasses⟩ := Pool.writable_of_read hread
  obtain ⟨_, t', hpass, h⟩ := bind_run.mp h
  cases hpass
  obtain ⟨_, t'', hcheck, h⟩ := bind_run.mp h
  obtain ⟨c', hcheck', rfl⟩ := ofFileReader_ok.mp hcheck
  cases h
  cases hvalidate : pool.validate version with
  | error error =>
      rw [hvalidate] at hcheck'
      cases hcheck'
  | ok _ =>
      rw [hvalidate] at hcheck'
      cases hcheck'
      exact ⟨hwritable, hpasses.1, rfl⟩

theorem readAttributes_spells {version : Version} {so : TypeAttributes} {c c' : Cursor}
    (h : TypeAttributes.read pool version c = .ok so c') :
    ∃ attributes : List (FramedAttribute pool), attributes.length < 65536 ∧
      c.rest = FramedAttribute.table attributes ++ c'.rest ∧
      attributes.foldlM (AttributeTable.said? .inClass version (TypeAttributes.add pool)) .none = some so := by
  obtain ⟨found, d, htable, h⟩ := bind_run.mp h
  split at h
  · cases h
  · cases h
    exact AttributeTable.read_ok (TypeAttributes.placeless_add pool) htable

theorem checkEnd_ok {decl : TypeDecl} {c c' : Cursor} (h : checkEnd pool decl c = .ok () c') :
    c.rest = [] ∧ decl.bootstrapMethods.length ≤ maxBootstrapMethods ∧
      pool.checkBootstrap (UInt16.ofNat decl.bootstrapMethods.length) = .ok () := by
  rw [checkEnd, get_bind_run] at h
  dsimp only at h
  split at h
  · cases h
  rename_i hend
  split at h
  · cases h
  rename_i hcount
  exact ⟨by simpa [Cursor.isEmpty] using hend, Nat.not_lt.mp hcount, (ofPool_run.mp h).1⟩

theorem ofBytes_eq_ok {keepBytes : Bool} {bytes : List UInt8} {decl : TypeDecl} :
    ofBytes keepBytes bytes = .ok decl ↔
      ∃ after, read keepBytes ⟨Cursor.ofBytes bytes, []⟩ = .ok decl after := by
  unfold ofBytes trace
  cases read keepBytes ⟨Cursor.ofBytes bytes, []⟩ with
  | ok found after => simp
  | error error after => simp

theorem ofBytes_eq_error {keepBytes : Bool} {bytes : List UInt8} {error : Error} :
    ofBytes keepBytes bytes = .error error ↔
      ∃ after, read keepBytes ⟨Cursor.ofBytes bytes, []⟩ = .error error after := by
  unfold ofBytes trace
  cases read keepBytes ⟨Cursor.ofBytes bytes, []⟩ with
  | ok found after => simp
  | error error after => simp

/-- A class file that is accepted was written in one way, and is read as a whole. -/
theorem ofBytes_spells {keepBytes : Bool} {bytes : List UInt8} {decl : TypeDecl}
    (h : ofBytes keepBytes bytes = .ok decl) :
    ∃ layout : ClassLayout, layout.bytes = bytes ∧ decl.ReadFrom keepBytes layout := by
  obtain ⟨_, hread⟩ := ofBytes_eq_ok.mp h
  obtain ⟨version, s₁, hversion, hread⟩ := bind_run.mp hread
  obtain ⟨pool, s₂, hpool, hread⟩ := bind_run.mp hread
  obtain ⟨header, s₃, hheader, hread⟩ := bind_run.mp hread
  obtain ⟨fields, s₄, hfields, hread⟩ := bind_run.mp hread
  obtain ⟨methods, s₅, hmethods, hread⟩ := bind_run.mp hread
  obtain ⟨so, s₆, hso, hread⟩ := bind_run.mp hread
  obtain ⟨_, s₇, hend, hread⟩ := bind_run.mp hread
  obtain ⟨_, s₈, hpass, hread⟩ := bind_run.mp hread
  cases hread
  obtain ⟨c₃, hheaderRun, rfl⟩ := ofFileReader_ok.mp hheader
  obtain ⟨c₄, hfieldsRun, rfl⟩ := ofFileReader_ok.mp hfields
  obtain ⟨c₆, hsoRun, rfl⟩ := ofFileReader_ok.mp hso
  obtain ⟨c₇, hendRun, rfl⟩ := ofFileReader_ok.mp hend
  have hmagic := readVersion_spells hversion
  obtain ⟨hwritable, hencode, hvalidate⟩ := readPool_spells hpool
  obtain ⟨access, name, superClass, interfaces, hinterfaces, hfront, haccess, hname, hsuper, hnames,
    hdistinct⟩ := readHeader_spells hheaderRun
  obtain ⟨fieldMembers, hfieldsFit, hfieldBytes, hfieldsRead, hfieldsApart⟩ := readFields_spells hfieldsRun
  obtain ⟨methodMembers, hmethodsFit, hmethodBytes, hmethodsRead, hmethodsApart⟩ :=
    readMethods_spells hmethods
  obtain ⟨attributes, hattributesFit, htable, hsaid⟩ := readAttributes_spells (within_ok.mp hsoRun)
  obtain ⟨hrest, hcount, hbootstraps⟩ := checkEnd_ok hendRun
  refine ⟨⟨version, pool, access, name, superClass, interfaces, fieldMembers, methodMembers, attributes,
    hwritable, hinterfaces, hfieldsFit, hmethodsFit, hattributesFit⟩, ?_, ?_⟩
  · change _ = (Cursor.ofBytes bytes).rest
    rw [hmagic, hencode, hfront, hfieldBytes, hmethodBytes, htable, hrest, List.append_nil]
    rfl
  · exact ⟨rfl, hvalidate, haccess, hname, hsuper, hnames, hdistinct, hfieldsRead, hfieldsApart,
      hmethodsRead, hmethodsApart, ⟨so, hsaid, rfl⟩, hcount, hbootstraps⟩

end TypeDecl

end ClassFile
