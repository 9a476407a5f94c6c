import ClassFile.Proofs.Declaration.MethodCode
import ClassFile.Proofs.SideBySide

/-! Keeping the bytes of code. Whether they are asked for is told to the reading of every method, and it only
decides what is put into the code that was verified. So a file is read in the same way in either case: what
is found differs in the bytes alone, and errors only in how such code was printed. -/

namespace ClassFile

/-- The same fault, or that a value was repeated, whatever was printed of it. -/
inductive Fault.Alike : Fault → Fault → Prop where
  | same (fault : Fault) : Alike fault fault
  | repeated (old new old' new' : String) :
      Alike (.structural (.repeated old new)) (.structural (.repeated old' new'))

/-- Errors in the same place with faults of one kind, at the same offset of code or index of a pool. -/
structure Error.Alike (e f : Error) : Prop where
  places : e.places = f.places
  fault : e.fault.Alike f.fault

/-- The code without its bytes. -/
def Code.withoutBytes (code : Code) : Code := { code with bytes := none }

/-- What attributes say of a method, without the bytes of its code. -/
def MethodAttributes.withoutBytes (so : MethodAttributes) : MethodAttributes :=
  { so with code := so.code.map Code.withoutBytes }

/-- The method without the bytes of its code. -/
def MethodDecl.withoutBytes (method : MethodDecl) : MethodDecl :=
  { method with code := method.code.map Code.withoutBytes }

/-- The type without the bytes of the code of its methods. -/
def TypeDecl.withoutBytes (decl : TypeDecl) : TypeDecl :=
  { decl with methods := decl.methods.map MethodDecl.withoutBytes }

theorem Error.Alike.refl (e : Error) : e.Alike e := ⟨rfl, .same e.fault⟩

/-- Two readers come to the same but for the bytes of code, which only the first one keeps. -/
abbrev Keeping {σ α : Type} (without : α → α) (first second : EStateM Error σ α) : Prop :=
  SideBySide (fun a b => b = without a) Error.Alike first second

namespace Keeping

open FileReader Reader SideBySide

variable {α β : Type} {pool : Pool} {without : α → α}

theorem within (place : Place) {first second : FileReader α} (h : Keeping without first second) :
    Keeping without (within place first) (FileReader.within place second) :=
  sideBySide_within place (fun _ _ halike => ⟨congrArg (place :: ·) halike.places, halike.fault⟩) h

theorem fillOnce [Outlined α] (attributes : List Attribute) (old : Option α) (new : α) :
    Keeping (Option.map without) (fillOnce attributes old new)
      (FileReader.fillOnce attributes (old.map without) (without new)) := by
  cases old with
  | none => exact .pure rfl
  | some old =>
      refine within _ (.throw ?_)
      exact ⟨rfl, .repeated _ _ _ _⟩

/-- The bytes take no part in the checks of code. -/
theorem code (method : MethodContext) :
    Keeping Code.withoutBytes (Code.read pool method true) (Code.read pool method false) := by
  refine .bind_same Error.Alike.refl fun raw => ?_
  have hcheck : raw.check pool method false = Code.withoutBytes <$> raw.check pool method true := by
    unfold RawCode.check
    simp only [map_bind, map_pure]
    rfl
  rw [hcheck]
  cases raw.check pool method true with
  | ok code => exact .pure rfl
  | error error => exact .throw (.refl error)

/-- Only what is said of code depends on whether bytes are kept. -/
theorem attributes (method : MethodContext) (hasCode : Bool) (so : MethodAttributes) (found : Attribute) :
    Keeping MethodAttributes.withoutBytes (MethodAttributes.add pool method hasCode true so found)
      (MethodAttributes.add pool method hasCode false so.withoutBytes found) := by
  unfold MethodAttributes.add
  split
  · split
    · exact .throw (.refl _)
    · refine .bind (code method) fun code _ hcode => ?_
      subst hcode
      refine .bind (fillOnce _ so.code code) fun filled _ hfilled => ?_
      subst hfilled
      exact .pure rfl
  · exact .bind_same Error.Alike.refl fun _ => .bind_same Error.Alike.refl fun _ => .pure rfl
  · exact .bind_same Error.Alike.refl fun _ => .bind_same Error.Alike.refl fun _ =>
      .bind_same Error.Alike.refl fun _ => .pure rfl
  · exact .pure rfl
  · exact .pure rfl
  · exact .bind_same Error.Alike.refl fun _ => .pure rfl

theorem method (owner : MethodOwner) :
    Keeping MethodDecl.withoutBytes (MethodDecl.read pool owner true) (MethodDecl.read pool owner false) := by
  refine .bind_same Error.Alike.refl fun header => within _ ?_
  unfold MethodDecl.complete
  split
  · exact .throw (.refl _)
  · have hattributes : Keeping MethodAttributes.withoutBytes
        (AttributeTable.read pool .inMethod owner.version
          (MethodAttributes.add pool (header.context owner) header.access.hasCode true) .none)
        (AttributeTable.read pool .inMethod owner.version
          (MethodAttributes.add pool (header.context owner) header.access.hasCode false) .none) := by
      refine AttributeTable.sideBySide_read pool .inMethod owner.version Error.Alike.refl rfl ?_
      rintro so _ rfl found
      exact attributes _ _ so found
    refine .bind hattributes ?_
    rintro attributes _ rfl
    have hnone : attributes.withoutBytes.code.isNone = attributes.code.isNone := Option.isNone_map
    rw [hnone]
    split
    · exact .throw (.refl _)
    · exact .pure rfl

theorem session {first second : FileReader α} (h : Keeping without first second) :
    Keeping without (SessionReader.ofFileReader first) (SessionReader.ofFileReader second) := by
  intro session
  unfold SessionReader.ofFileReader
  rcases (h session.cursor).cases with ⟨a, b, after, ha, hb, hsame⟩ | ⟨e, f, after, he, hf, halike⟩
  · rw [ha, hb]
    exact ⟨hsame, rfl⟩
  · rw [he, hf]
    exact ⟨halike, rfl⟩

theorem methods (owner : MethodOwner) :
    Keeping (List.map MethodDecl.withoutBytes) (TypeDecl.readMethods pool owner true)
      (TypeDecl.readMethods pool owner false) := by
  refine .bind_same Error.Alike.refl fun count => ?_
  have hmethods : Keeping (List.map MethodDecl.withoutBytes)
      (iterate (TypeDecl.readMethod pool owner true) [] count.toNat)
      (iterate (TypeDecl.readMethod pool owner false) [] count.toNat) := by
    refine .iterate (fun so so' hso => ?_) (by rfl) _
    subst hso
    refine .bind (session (method owner)) ?_
    rintro found _ rfl
    have hrepeated : ((so.map MethodDecl.withoutBytes).any fun other =>
        other.name = found.name ∧ other.descriptor = found.descriptor) =
        so.any fun other => other.name = found.name ∧ other.descriptor = found.descriptor := List.any_map
    refine .bind_same Error.Alike.refl fun _ => ?_
    change SideBySide _ _ _ (if ((so.map MethodDecl.withoutBytes).any fun other =>
        other.name = found.name ∧ other.descriptor = found.descriptor) = true then _ else _)
    rw [hrepeated]
    split
    · exact .throw (.refl _)
    · exact .pure rfl
  refine .bind hmethods ?_
  rintro methods _ rfl
  exact .pure List.map_reverse.symm

/-- Reading a class file. -/
theorem type : Keeping TypeDecl.withoutBytes (TypeDecl.read true) (TypeDecl.read false) := by
  refine .bind_same Error.Alike.refl fun version => .bind_same Error.Alike.refl fun pool =>
    .bind_same Error.Alike.refl fun header => .bind_same Error.Alike.refl fun fields => ?_
  refine .bind (methods _) ?_
  rintro methods _ rfl
  refine .bind_same Error.Alike.refl fun attributes => .bind_same Error.Alike.refl fun _ => ?_
  have hlength : (methods.map MethodDecl.withoutBytes).length = methods.length := List.length_map _
  change SideBySide _ _ _ (SessionReader.pass (.type header.name fields.length
    (methods.map MethodDecl.withoutBytes).length) >>= fun _ => _)
  rw [hlength]
  exact .bind_same Error.Alike.refl fun _ => .pure rfl

end Keeping

/-- Keeping the bytes of code decides nothing. A file either fails in the same way whether they are kept or
not, or it is accepted either way, as the same type but for the bytes. Those that are kept are the ones that
the file holds as the code of the method. -/
theorem TypeDecl.ofBytes_keeping (bytes : List UInt8) :
    (∃ error error', ofBytes true bytes = .error error ∧ ofBytes false bytes = .error error' ∧
      error.Alike error') ∨
    ∃ decl, ofBytes true bytes = .ok decl ∧ ofBytes false bytes = .ok decl.withoutBytes ∧
      (∃ layout : ClassLayout, layout.bytes = bytes) ∧
      ∀ layout : ClassLayout, layout.bytes = bytes →
        List.Forall₂ (fun m method => ∀ code ∈ method.code, ∃ codeBytes, code.bytes = some codeBytes ∧
          codeBytes.length = code.codeLength.toNat ∧ m.HoldsCode codeBytes) layout.methods decl.methods := by
  rcases (Keeping.type ⟨Cursor.ofBytes bytes, []⟩).cases with
    ⟨decl, _, after, hkept, hleft, rfl⟩ | ⟨error, error', after, hkept, hleft, halike⟩
  · right
    have haccepted := ofBytes_eq_ok.mpr ⟨_, hkept⟩
    obtain ⟨layout, hlayout, hread⟩ := ofBytes_spells haccepted
    refine ⟨decl, haccepted, ofBytes_eq_ok.mpr ⟨_, hleft⟩, ⟨layout, hlayout⟩, fun other hother => ?_⟩
    obtain rfl := ClassLayout.bytes_injective (hother.trans hlayout.symm)
    exact hread.methods.imp fun _ _ hmethod => hmethod.holdsCode
  · exact .inl ⟨error, error', ofBytes_eq_error.mpr ⟨_, hkept⟩, ofBytes_eq_error.mpr ⟨_, hleft⟩, halike⟩

end ClassFile
