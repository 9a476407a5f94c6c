import ClassFile.Proofs.Attribute.Placeless
import ClassFile.Proofs.Declaration.Layout
import ClassFile.Proofs.Descriptor.Method
import ClassFile.Proofs.Pool.Validated

/-! Reading the members of a class file. A field or a method that is read was written as one, and it is told
by its header and by what its attributes say in turn. -/

namespace ClassFile

open FileReader Reader

variable {α : Type} {pool : Pool}

/-- The header of a member is written as its flags and the indices of its name and its descriptor. -/
theorem memberHeader_spells {ν δ : Type} {toName : Text → Except NameFault ν}
    {toType : Text → Except DescriptorFault δ} {next : UInt16 → ν → δ → FileReader α} {a : α}
    {c c' : Cursor}
    (h : (do
      let access ← u16
      let nameIndex ← u16
      let name ← Pool.nameAt nameIndex (toName (← pool.utf8At nameIndex))
      let typeIndex ← u16
      let type ← Pool.descriptorAt typeIndex (toType (← pool.utf8At typeIndex))
      next access name type : FileReader α) c = .ok a c') :
    ∃ access nameIndex typeIndex nameText typeText name type d,
      c.rest = bigEndianBytes 2 access.toNat ++ (bigEndianBytes 2 nameIndex.toNat ++
        (bigEndianBytes 2 typeIndex.toNat ++ d.rest)) ∧
      (pool.utf8At nameIndex = .ok nameText ∧ toName nameText = .ok name) ∧
      (pool.utf8At typeIndex = .ok typeText ∧ toType typeText = .ok type) ∧
      next access name type d = .ok a c' := by
  obtain ⟨access, d, haccess, h⟩ := bind_run.mp h
  obtain ⟨nameIndex, d₁, hindex, h⟩ := bind_run.mp h
  obtain ⟨nameText, d₂, htext, h⟩ := bind_run.mp h
  obtain ⟨name, d₃, hname, h⟩ := bind_run.mp h
  obtain ⟨typeIndex, d₄, hindex', h⟩ := bind_run.mp h
  obtain ⟨typeText, d₅, htext', h⟩ := bind_run.mp h
  obtain ⟨type, d₆, htype, h⟩ := bind_run.mp h
  obtain ⟨hnameText, rfl⟩ := liftPool_run.mp htext
  obtain ⟨hnamed, rfl⟩ := liftPool_run.mp hname
  obtain ⟨htypeText, rfl⟩ := liftPool_run.mp htext'
  obtain ⟨htyped, rfl⟩ := liftPool_run.mp htype
  refine ⟨access, nameIndex, typeIndex, nameText, typeText, name, type, d₄, ?_,
    ⟨hnameText, Pool.nameAt_ok.mp hnamed⟩, ⟨htypeText, Pool.descriptorAt_ok.mp htyped⟩, h⟩
  rw [u16_run_ok haccess, u16_run_ok hindex, u16_run_ok hindex']

/-- A field was read from what is written of it. -/
structure FieldDecl.ReadFrom (version : Version) (owner : ClassAccess) (m : MemberLayout pool)
    (field : FieldDecl) : Prop where
  access : field.access = .ofBits m.access
  declares : m.Declares field.name.text field.type.descriptor
  checked : field.access.check owner = .ok ()
  said : m.attributes.foldlM (AttributeTable.said? .inField version (FieldDecl.add pool))
    (bare field.access field.name field.type) = some field

/-- What attributes say of a field leaves its header as it is. -/
theorem FieldDecl.gives_add (header so : FieldDecl) (found : Attribute)
    (hso : bare so.access so.name so.type = header) :
    Gives (fun after => bare after.access after.name after.type = header) (FieldDecl.add pool so found) := by
  unfold FieldDecl.add
  split
  · exact .skip fun _ => .skip fun _ => .pure hso
  · exact .skip fun _ => .skip fun _ => .skip fun _ => .pure hso
  · exact .pure hso
  · exact .pure hso
  · exact .skip fun _ => .pure hso

theorem FieldDecl.read_spells {version : Version} {owner : ClassAccess} {field : FieldDecl} {c c' : Cursor}
    (h : FieldDecl.read pool version owner c = .ok field c') :
    ∃ m : MemberLayout pool, c.rest = m.bytes ++ c'.rest ∧ field.ReadFrom version owner m := by
  obtain ⟨access, nameIndex, typeIndex, nameText, typeText, name, type, d, hbytes, ⟨hnameText, hname⟩,
    ⟨htypeText, htype⟩, h⟩ := memberHeader_spells h
  rw [FieldName.ofText?_ok] at hname
  rw [FieldType.parse_ok] at htype
  subst hname htype
  have h := within_ok.mp h
  unfold complete at h
  cases hcheck : (FieldAccess.ofBits access).check owner with
  | error fault =>
      rw [show (bare (.ofBits access) name type).access = .ofBits access from rfl, hcheck] at h
      cases h
  | ok _ =>
      rw [show (bare (.ofBits access) name type).access = .ofBits access from rfl, hcheck] at h
      obtain ⟨attributes, hfits, hrest, hsaid⟩ := AttributeTable.read_ok (placeless_add pool) h
      have hheader := AttributeTable.foldlM_said?_keeps
        (fun so found hso => gives_add (bare (.ofBits access) name type) so found hso) (by rfl) hsaid
      have haccess := congrArg FieldDecl.access hheader
      have hname := congrArg FieldDecl.name hheader
      have htype := congrArg FieldDecl.type hheader
      change field.access = .ofBits access at haccess
      change field.name = name at hname
      change field.type = type at htype
      subst hname htype
      refine ⟨⟨access, nameIndex, typeIndex, attributes, hfits⟩, ?_, haccess, ⟨hnameText, htypeText⟩,
        haccess ▸ hcheck, haccess ▸ hsaid⟩
      rw [hbytes, hrest, MemberLayout.bytes]
      simp only [List.append_assoc]

/-- The header of a method. -/
def MethodDecl.header (method : MethodDecl) : MethodHeader :=
  ⟨method.access, method.name, method.descriptor⟩

/-- A method was read from what is written of it. -/
structure MethodDecl.ReadFrom (owner : MethodOwner) (keepBytes : Bool) (m : MemberLayout pool)
    (method : MethodDecl) : Prop where
  access : method.access = .ofBits m.access
  declares : m.Declares method.name.text method.descriptor.descriptor
  checked : method.header.check owner = .ok ()
  said : ∃ attributes : MethodAttributes, m.attributes.foldlM (AttributeTable.said? .inMethod owner.version
      (MethodAttributes.add pool (method.header.context owner) method.access.hasCode keepBytes)) .none =
        some attributes ∧
    method = ofParts method.header attributes ∧ (method.access.hasCode = true → attributes.code.isSome)

theorem MethodDecl.read_spells {owner : MethodOwner} {keepBytes : Bool} {method : MethodDecl}
    {c c' : Cursor} (h : MethodDecl.read pool owner keepBytes c = .ok method c') :
    ∃ m : MemberLayout pool, c.rest = m.bytes ++ c'.rest ∧ method.ReadFrom owner keepBytes m := by
  obtain ⟨header, between, hheader, h⟩ := bind_run.mp h
  obtain ⟨access, nameIndex, typeIndex, nameText, typeText, name, type, d, hbytes, ⟨hnameText, hname⟩,
    ⟨htypeText, htype⟩, hheader⟩ := memberHeader_spells hheader
  cases hheader
  rw [MethodName.ofText?_ok] at hname
  rw [MethodDescriptor.parse_ok_iff] at htype
  subst hname htype
  have h := within_ok.mp h
  unfold complete at h
  cases hcheck : (⟨.ofBits access, name, type⟩ : MethodHeader).check owner with
  | error fault =>
      rw [hcheck] at h
      cases h
  | ok _ =>
      rw [hcheck] at h
      obtain ⟨so, d', htable, h⟩ := bind_run.mp h
      obtain ⟨attributes, hfits, hrest, hsaid⟩ :=
        AttributeTable.read_ok (MethodAttributes.placeless_add pool _ _ _) htable
      split at h
      · cases h
      · rename_i hcode
        cases h
        refine ⟨⟨access, nameIndex, typeIndex, attributes, hfits⟩, ?_, rfl, ⟨hnameText, htypeText⟩, hcheck,
          so, hsaid, rfl, fun hhas => ?_⟩
        · rw [hbytes, hrest, MemberLayout.bytes]
          simp only [List.append_assoc]
        · rw [show (MethodAccess.ofBits access).hasCode = true from hhas] at hcode
          exact Option.isSome_iff_ne_none.mpr fun hnone => by simp [hnone] at hcode

end ClassFile
