import ClassFile.Proofs.Declaration.MethodCode
import ClassFile.Proofs.Verification.InitialFrame
import ClassFile.Proofs.Verification.Performing
import ClassFile.Proofs.Verification.Tracking

/-! The members of a class file that is accepted. They are those that the file lists, in the order of the
file, and looking one up by its name and its descriptor finds the one that is declared with these texts. -/

namespace ClassFile

open FileReader

section Texts

theorem FieldName.text_inj {name other : FieldName} : name.text = other.text ↔ name = other := by
  rw [← FieldName.ofText?_ok, FieldName.ofText?_ok.mpr rfl, Except.ok.injEq]
  exact eq_comm

theorem MethodName.text_inj {name other : MethodName} : name.text = other.text ↔ name = other := by
  rw [← MethodName.ofText?_ok, MethodName.ofText?_ok.mpr rfl, Except.ok.injEq]
  exact eq_comm

theorem FieldType.descriptor_inj {type other : FieldType} :
    type.descriptor = other.descriptor ↔ type = other := by
  rw [← FieldType.parse_ok, FieldType.parse_ok.mpr rfl, Except.ok.injEq]

theorem MethodDescriptor.descriptor_inj {type other : MethodDescriptor} :
    type.descriptor = other.descriptor ↔ type = other := by
  rw [← MethodDescriptor.parse_ok_iff, MethodDescriptor.parse_ok_iff.mpr rfl, Except.ok.injEq]

end Texts

/-- The first item with a property is the only one, if no two items have it. -/
theorem find?_eq_some_of_apart {α : Type} {p : α → Bool} {as : List α}
    (h : as.Pairwise fun a b => ¬(p a = true ∧ p b = true)) {a : α} :
    as.find? p = some a ↔ a ∈ as ∧ p a = true := by
  induction as with
  | nil => simp
  | cons b as ih =>
      obtain ⟨hb, hrest⟩ := List.pairwise_cons.mp h
      rw [List.find?_cons, List.mem_cons]
      cases hfirst : p b with
      | true =>
          constructor
          · rintro ⟨⟩
            exact ⟨.inl rfl, hfirst⟩
          · rintro ⟨rfl | hmem, ha⟩
            · rfl
            · exact absurd ⟨hfirst, ha⟩ (hb a hmem)
      | false =>
          rw [ih hrest]
          constructor
          · exact fun ⟨hmem, ha⟩ => ⟨.inr hmem, ha⟩
          · rintro ⟨rfl | hmem, ha⟩
            · rw [hfirst] at ha
              cases ha
            · exact ⟨hmem, ha⟩

namespace MemberLayout

variable {α : Type} {pool : Pool} {members : List (MemberLayout pool)} {values : List α}

theorem Declares.eq {m : MemberLayout pool} {name type name' type' : Text} (h : m.Declares name type)
    (h' : m.Declares name' type') : name = name' ∧ type = type' :=
  ⟨Except.ok.inj (h.name.symm.trans h'.name), Except.ok.inj (h.descriptor.symm.trans h'.descriptor)⟩

/-- What is found by two texts is the value of the one member that is declared with them. -/
def LooksUp (members : List (MemberLayout pool)) (values : List α) (name type : Text) (found : Option α) :
    Prop :=
  ∀ a, found = some a ↔
    ∃ (i : Nat) (m : MemberLayout pool), members[i]? = some m ∧ m.Declares name type ∧ values[i]? = some a

/-- Values that are found by their own texts are found by those that are declared. -/
theorem looksUp_of_own {nameOf typeOf : α → Text}
    (hall : List.Forall₂ (fun m a => m.Declares (nameOf a) (typeOf a)) members values) {name type : Text}
    {found : Option α} (hfound : ∀ a, found = some a ↔ a ∈ values ∧ nameOf a = name ∧ typeOf a = type) :
    LooksUp members values name type found := by
  intro a
  rw [hfound]
  constructor
  · rintro ⟨hmem, rfl, rfl⟩
    obtain ⟨i, hi⟩ := List.mem_iff_getElem?.mp hmem
    obtain ⟨m, hm, hdeclares⟩ := forall₂_getElem? hall hi
    exact ⟨i, m, hm, hdeclares, hi⟩
  · rintro ⟨i, m, hm, hdeclares, hi⟩
    obtain ⟨own, hown, hdeclared⟩ := forall₂_getElem? hall hi
    obtain rfl := Option.some.inj (hm.symm.trans hown)
    exact ⟨List.mem_of_getElem? hi, hdeclared.eq hdeclares⟩

end MemberLayout

section Entry

variable {pool : Pool} {method : MethodContext} {source rest : Cursor} {code : Code} {raw : RawCode}
  {steps : List PassStep}

namespace Locals

/-- The receiver and the parameters of a method fit into its local variables. -/
theorem slots_of_atEntry {maxLocals : UInt16} {isStatic : Bool} {descriptor : MethodDescriptor}
    {stored : Locals} (h : atEntry maxLocals isStatic descriptor = .ok stored) :
    slotCount descriptor.parameters + (if isStatic then 0 else 1) ≤ maxLocals.toNat := by
  have hlaying := laying_atEntry maxLocals isStatic descriptor
  rw [h] at hlaying
  obtain ⟨hroom, _⟩ := hlaying
  rw [slotCount_eq]
  cases isStatic with
  | true => exact hroom
  | false => exact Nat.add_comm 1 _ ▸ hroom

end Locals

theorem Accepted.slots_le (h : Accepted pool method source rest code raw steps) :
    slotCount method.descriptor.parameters + (if method.isStatic then 0 else 1) ≤ code.maxLocals.toNat := by
  obtain ⟨start, hstart, _⟩ := bind_ok.mp h.verified
  obtain ⟨keepBytes, rfl⟩ := h.result
  unfold Pass.atOffset at hstart
  split at hstart
  · rename_i hstarts
    obtain ⟨locals, hlocals, _⟩ := bind_ok.mp hstarts
    exact Locals.slots_of_atEntry hlocals
  · cases hstart

end Entry

namespace TypeDecl

/-- The members of a declared type are those that its class file lists. -/
structure Lists (layout : ClassLayout) (decl : TypeDecl) : Prop where
  interfaces : List.Forall₂ (fun index name => layout.pool.classAt index = .ok name) layout.interfaces
    decl.interfaces
  interfacesApart : decl.interfaces.Nodup
  fields : List.Forall₂ (fun m field => field.access = .ofBits m.access ∧
    m.Declares field.name.text field.type.descriptor) layout.fields decl.fields
  fieldsApart : decl.fields.Pairwise fun field other =>
    ¬(field.name.text = other.name.text ∧ field.type.descriptor = other.type.descriptor)
  fieldKeys : ∀ name type field, decl.field? name type = some field ↔
    field ∈ decl.fields ∧ field.name = name ∧ field.type = type
  field? : ∀ nameText typeText name type, FieldName.ofText? nameText = .ok name →
    FieldType.parse typeText = .ok type →
      MemberLayout.LooksUp layout.fields decl.fields nameText typeText (decl.field? name type)
  methods : List.Forall₂ (fun m method => method.access = .ofBits m.access ∧
    m.Declares method.name.text method.descriptor.descriptor) layout.methods decl.methods
  methodsApart : decl.methods.Pairwise fun method other =>
    ¬(method.name.text = other.name.text ∧ method.descriptor.descriptor = other.descriptor.descriptor)
  methodKeys : ∀ name descriptor method, decl.method? name descriptor = some method ↔
    method ∈ decl.methods ∧ method.name = name ∧ method.descriptor = descriptor
  method? : ∀ nameText descriptorText name descriptor, MethodName.ofText? nameText = .ok name →
    MethodDescriptor.parse descriptorText = .ok descriptor →
      MemberLayout.LooksUp layout.methods decl.methods nameText descriptorText (decl.method? name descriptor)
  code : ∀ method ∈ decl.methods, method.code.isSome = true ↔
    method.access.isAbstract = false ∧ method.access.isNative = false
  slots : ∀ method ∈ decl.methods, ∀ code ∈ method.code,
    slotCount method.descriptor.parameters + (if method.access.isStatic then 0 else 1) ≤
      code.maxLocals.toNat

variable {keepBytes : Bool} {layout : ClassLayout} {decl : TypeDecl}

theorem ReadFrom.field?_eq_some (h : decl.ReadFrom keepBytes layout) (name : FieldName) (type : FieldType)
    (field : FieldDecl) :
    decl.field? name type = some field ↔ field ∈ decl.fields ∧ field.name = name ∧ field.type = type := by
  have hapart : decl.fields.Pairwise fun a b => ¬(decide (a.name = name ∧ a.type = type) = true ∧
      decide (b.name = name ∧ b.type = type) = true) := by
    refine h.fieldsApart.imp fun {a b} hne hboth => hne ?_
    obtain ⟨ha, hb⟩ := (hboth.imp of_decide_eq_true of_decide_eq_true)
    exact ⟨ha.1.trans hb.1.symm, ha.2.trans hb.2.symm⟩
  rw [field?, find?_eq_some_of_apart hapart, decide_eq_true_eq]

theorem ReadFrom.method?_eq_some (h : decl.ReadFrom keepBytes layout) (name : MethodName)
    (descriptor : MethodDescriptor) (method : MethodDecl) :
    decl.method? name descriptor = some method ↔
      method ∈ decl.methods ∧ method.name = name ∧ method.descriptor = descriptor := by
  have hapart : decl.methods.Pairwise fun a b => ¬(decide (a.name = name ∧ a.descriptor = descriptor) = true ∧
      decide (b.name = name ∧ b.descriptor = descriptor) = true) := by
    refine h.methodsApart.imp fun {a b} hne hboth => hne ?_
    obtain ⟨ha, hb⟩ := (hboth.imp of_decide_eq_true of_decide_eq_true)
    exact ⟨ha.1.trans hb.1.symm, ha.2.trans hb.2.symm⟩
  rw [method?, find?_eq_some_of_apart hapart, decide_eq_true_eq]

theorem ReadFrom.slots_le (h : decl.ReadFrom keepBytes layout) {method : MethodDecl}
    (hmethod : method ∈ decl.methods) {code : Code} (hcode : code ∈ method.code) :
    slotCount method.descriptor.parameters + (if method.access.isStatic then 0 else 1) ≤
      code.maxLocals.toNat := by
  obtain ⟨_, _, _, _, haccepted⟩ := h.code_accepted hmethod hcode
  exact haccepted.slots_le

theorem ReadFrom.lists (h : decl.ReadFrom keepBytes layout) : decl.Lists layout where
  interfaces := h.interfaces
  interfacesApart := h.interfacesApart
  fields := h.fields.imp fun _ _ hread => ⟨hread.access, hread.declares⟩
  fieldsApart := h.fieldsApart.imp fun hne => by rwa [FieldName.text_inj, FieldType.descriptor_inj]
  fieldKeys := h.field?_eq_some
  field? nameText typeText name type hname htype := by
    rw [FieldName.ofText?_ok] at hname
    rw [FieldType.parse_ok] at htype
    subst hname htype
    refine MemberLayout.looksUp_of_own (h.fields.imp fun _ _ hread => hread.declares) fun field => ?_
    rw [h.field?_eq_some, FieldName.text_inj, FieldType.descriptor_inj]
  methods := h.methods.imp fun _ _ hread => ⟨hread.access, hread.declares⟩
  methodsApart := h.methodsApart.imp fun hne => by rwa [MethodName.text_inj, MethodDescriptor.descriptor_inj]
  methodKeys := h.method?_eq_some
  method? nameText descriptorText name descriptor hname hdescriptor := by
    rw [MethodName.ofText?_ok] at hname
    rw [MethodDescriptor.parse_ok_iff] at hdescriptor
    subst hname hdescriptor
    refine MemberLayout.looksUp_of_own (h.methods.imp fun _ _ hread => hread.declares) fun method => ?_
    rw [h.method?_eq_some, MethodName.text_inj, MethodDescriptor.descriptor_inj]
  code method hmethod := by
    obtain ⟨m, hread⟩ := h.method_read hmethod
    have hhas : method.access.hasCode = true ↔
        method.access.isAbstract = false ∧ method.access.isNative = false := by
      simp [MethodAccess.hasCode]
    rw [← hhas]
    rcases hread.code with ⟨hno, _, hnone⟩ | ⟨hhas, f, found, c, _, _, _, hfound⟩
    · simp [hno, hnone]
    · simp [hhas, hfound]
  slots _ hmethod _ hcode := h.slots_le hmethod hcode

/-- No member is lost, merged or made up when a class file is read. There is one way to write the file, and
what it lists is what is declared: interfaces, fields and methods in their order, no two fields or methods
with the same texts, found by exactly the texts that they are declared with. -/
theorem ofBytes_lists {keepBytes : Bool} {bytes : List UInt8} {decl : TypeDecl}
    (h : ofBytes keepBytes bytes = .ok decl) :
    ∃ layout : ClassLayout, layout.bytes = bytes ∧ (∀ other : ClassLayout, other.bytes = bytes → other = layout) ∧
      decl.Lists layout := by
  obtain ⟨layout, hlayout, hread⟩ := ofBytes_spells h
  exact ⟨layout, hlayout, fun other hother => ClassLayout.bytes_injective (hother.trans hlayout.symm),
    hread.lists⟩

/-- A class file with a method that just returns. -/
theorem sampleClass_lists :
    ∃ decl, ofBytes false (sampleClass [0xb1]) = .ok decl ∧ decl.methods.length = 1 ∧
      ∃ layout : ClassLayout, layout.bytes = sampleClass [0xb1] ∧
        (∀ other : ClassLayout, other.bytes = sampleClass [0xb1] → other = layout) ∧ decl.Lists layout := by
  have hcount : (match ofBytes false (sampleClass [0xb1]) with
      | .ok decl => some decl.methods.length
      | .error _ => none) = some 1 := by
    decide +kernel
  cases hrun : ofBytes false (sampleClass [0xb1]) with
  | error error =>
      rw [hrun] at hcount
      cases hcount
  | ok decl =>
      rw [hrun] at hcount
      exact ⟨decl, rfl, Option.some.inj hcount, ofBytes_lists hrun⟩

end TypeDecl

end ClassFile
