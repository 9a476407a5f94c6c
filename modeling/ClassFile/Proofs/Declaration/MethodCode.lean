import ClassFile.Proofs.Code.Contents
import ClassFile.Proofs.Declaration.Decoded
import ClassFile.Proofs.Declaration.Spelled

/-! The code of a method that is read. It comes from the one `Code` attribute of the method, which methods
have unless they are abstract or native, and its bytes are those that the attribute holds. -/

namespace ClassFile

open FileReader Reader

variable {pool : Pool}

namespace FramedAttribute

/-- Whether an attribute is one for code. -/
def isCode (f : FramedAttribute pool) : Bool := f.predefined? = some .code

/-- The contents of an attribute hold bytes as code. -/
def HoldsCode (f : FramedAttribute pool) (codeBytes : List UInt8) : Prop :=
  ∃ (front : CodeFront) (attributes : List (FramedAttribute pool)),
    f.contents = front.bytes ++ FramedAttribute.table attributes ∧ front.code = codeBytes

end FramedAttribute

/-- The one attribute for code of a method holds bytes as its code. -/
def MemberLayout.HoldsCode (m : MemberLayout pool) (codeBytes : List UInt8) : Prop :=
  ∃ f, m.attributes.filter FramedAttribute.isCode = [f] ∧ f.HoldsCode codeBytes

section Bytes

variable {method : MethodContext} {source rest : Cursor} {code : Code} {raw : RawCode}

theorem CodeFront.bytes_of_raw? {front : CodeFront} {so : CodeAttributes} (h : front.raw? pool so = some raw) :
    raw.bytes = front.code := by
  unfold raw? at h
  split at h
  · cases h
  · obtain ⟨handlers, _, rfl⟩ := Option.map_eq_some_iff.mp h
    rfl

/-- The bytes that are kept are those that were read. -/
theorem Accepted.bytes_of_kept {steps : List PassStep} (h : Accepted pool method source rest code raw steps)
    (hread : Code.read pool method true source = .ok code rest) :
    code.bytes = some raw.bytes ∧ raw.bytes.length = code.codeLength.toNat := by
  obtain ⟨keepBytes, hresult⟩ := h.result
  have hkept := Code.bytes_of_read hread
  cases keepBytes with
  | false => exact absurd (congrArg Code.bytes hresult) hkept
  | true =>
      refine ⟨congrArg Code.bytes hresult, ?_⟩
      rw [congrArg Code.codeLength hresult]
      exact (toNat_length (RawCode.read_length h.read).2).symm

/-- Code that is read with its bytes has those that its attribute holds. -/
theorem Code.read_holds {f : FramedAttribute pool}
    (h : Code.read pool method true (.ofBytes f.contents) = .ok code rest) (hrest : rest.rest = []) :
    ∃ codeBytes, code.bytes = some codeBytes ∧ codeBytes.length = code.codeLength.toNat ∧
      f.HoldsCode codeBytes := by
  obtain ⟨raw, steps, haccepted⟩ := Code.read_ok h
  obtain ⟨hbytes, hlength⟩ := haccepted.bytes_of_kept h
  have hparse : parse (RawCode.read pool method) f.contents = some (raw, []) :=
    parse_eq_some.mpr ⟨rest, haccepted.read, hrest⟩
  obtain ⟨front, attributes, _, hcontents⟩ := RawCode.read_spells pool method hparse
  rw [List.append_nil] at hcontents
  rw [hcontents, RawCode.parse_read] at hparse
  obtain ⟨_, _, hfound⟩ := Option.bind_eq_some_iff.mp hparse
  obtain ⟨_, hraw, hsame⟩ := Option.map_eq_some_iff.mp hfound
  obtain ⟨rfl, _⟩ := Prod.mk.inj hsame
  exact ⟨_, hbytes, hlength, front, attributes, hcontents, (CodeFront.bytes_of_raw? hraw).symm⟩

end Bytes

namespace MethodAttributes

variable {method : MethodContext} {hasCode keepBytes : Bool} {so after : MethodAttributes}

/-- Other attributes say nothing of the code. -/
theorem gives_add_other {found : Attribute} (hother : found ≠ .code) :
    Gives (fun after => after.code = so.code) (add pool method hasCode keepBytes so found) := by
  unfold add
  split
  · exact absurd rfl hother
  · exact .skip fun _ => .skip fun _ => .pure rfl
  · exact .skip fun _ => .skip fun _ => .skip fun _ => .pure rfl
  · exact .pure rfl
  · exact .pure rfl
  · exact .skip fun _ => .pure rfl

/-- Only one kind of attributes says what the code is, and only once. -/
theorem code_of_add {found : Attribute} {c c' : Cursor}
    (h : add pool method hasCode keepBytes so found c = .ok after c') :
    found ≠ .code ∧ after.code = so.code ∨
      found = .code ∧ so.code = .none ∧ hasCode = true ∧ ∃ code,
        Code.read pool method keepBytes c = .ok code c' ∧ after.code = some code := by
  by_cases hfound : found = .code
  · right
    subst hfound
    unfold add at h
    dsimp only at h
    split at h
    · cases h
    · rename_i hhas
      obtain ⟨code, d, hcode, h⟩ := bind_run.mp h
      obtain ⟨filled, d', hfill, h⟩ := bind_run.mp h
      cases h
      obtain ⟨hnone, rfl, rfl⟩ := fillOnce_ok hfill
      exact ⟨rfl, hnone, by simpa using hhas, code, hcode, rfl⟩
  · exact .inl ⟨hfound, (gives_add_other hfound).of_ok h⟩

/-- The code comes from the one attribute for code. -/
theorem code_of_foldlM {version : Version} {attributes : List (FramedAttribute pool)}
    (h : attributes.foldlM (AttributeTable.said? .inMethod version (add pool method hasCode keepBytes)) so =
      some after) :
    attributes.filter FramedAttribute.isCode = [] ∧ after.code = so.code ∨
      so.code = .none ∧ hasCode = true ∧ ∃ f code c, attributes.filter FramedAttribute.isCode = [f] ∧
        Code.read pool method keepBytes (.ofBytes f.contents) = .ok code c ∧ c.rest = [] ∧
          after.code = some code := by
  induction attributes generalizing so with
  | nil =>
      cases h
      exact .inl ⟨rfl, rfl⟩
  | cons f others ih =>
      rw [List.foldlM_cons] at h
      obtain ⟨between, hfirst, hothers⟩ := Option.bind_eq_some_iff.mp h
      have hrest := ih hothers
      have hskip : f.isCode = false → (f :: others).filter FramedAttribute.isCode =
          others.filter FramedAttribute.isCode := fun hcode => List.filter_cons_of_neg (by simp [hcode])
      rcases AttributeTable.said?_ok hfirst with ⟨hnone, rfl⟩ | ⟨found, c, hfound, hrun, hend⟩
      · rwa [hskip (by simp [FramedAttribute.isCode, hnone])]
      · rcases code_of_add hrun with ⟨hother, hsame⟩ | ⟨rfl, hso, hhas, code, hcode, hfilled⟩
        · rwa [hskip (by simp [FramedAttribute.isCode, hfound, hother]), ← hsame]
        · right
          have hkept : (f :: others).filter FramedAttribute.isCode =
              f :: others.filter FramedAttribute.isCode :=
            List.filter_cons_of_pos (by simp [FramedAttribute.isCode, hfound])
          rcases hrest with ⟨hnone, hsame⟩ | ⟨hagain, _⟩
          · exact ⟨hso, hhas, f, code, c, by rw [hkept, hnone], hcode, hend, hsame.trans hfilled⟩
          · rw [hfilled] at hagain
            cases hagain

end MethodAttributes

namespace MethodDecl

variable {owner : MethodOwner} {keepBytes : Bool} {m : MemberLayout pool} {method : MethodDecl}

/-- A method has code if and only if it is neither abstract nor native, and it got it from its only attribute
for code. -/
theorem ReadFrom.code (h : method.ReadFrom owner keepBytes m) :
    method.access.hasCode = false ∧ m.attributes.filter FramedAttribute.isCode = [] ∧ method.code = none ∨
      method.access.hasCode = true ∧ ∃ f code c, m.attributes.filter FramedAttribute.isCode = [f] ∧
        Code.read pool (method.header.context owner) keepBytes (.ofBytes f.contents) = .ok code c ∧
          c.rest = [] ∧ method.code = some code := by
  obtain ⟨so, hsaid, hmethod, hcode⟩ := h.said
  have hsame : method.code = so.code := congrArg MethodDecl.code hmethod
  rcases MethodAttributes.code_of_foldlM hsaid with ⟨hfilter, hnone⟩ | ⟨_, hhas, f, code, c, hrest⟩
  · left
    refine ⟨?_, hfilter, hsame.trans hnone⟩
    rw [Bool.eq_false_iff]
    intro hhas
    exact Option.isSome_iff_ne_none.mp (hcode hhas) hnone
  · exact .inr ⟨hhas, f, code, c, hrest.1, hrest.2.1, hrest.2.2.1, hsame.trans hrest.2.2.2⟩

/-- The code of a method has the bytes that are held as its code, if they are asked for. -/
theorem ReadFrom.holdsCode (h : method.ReadFrom owner true m) :
    ∀ code ∈ method.code, ∃ codeBytes, code.bytes = some codeBytes ∧
      codeBytes.length = code.codeLength.toNat ∧ m.HoldsCode codeBytes := by
  intro code hcode
  rcases h.code with ⟨_, _, hnone⟩ | ⟨_, f, found, c, hfilter, hread, hend, hfound⟩
  · rw [hnone] at hcode
    cases hcode
  · rw [hfound] at hcode
    cases hcode
    obtain ⟨codeBytes, hbytes, hlength, hholds⟩ := Code.read_holds hread hend
    exact ⟨codeBytes, hbytes, hlength, f, hfilter, hholds⟩

end MethodDecl

namespace TypeDecl

variable {keepBytes : Bool} {layout : ClassLayout} {decl : TypeDecl} {method : MethodDecl}

/-- Every method was read from one that the file lists. -/
theorem ReadFrom.method_read (h : decl.ReadFrom keepBytes layout) (hmethod : method ∈ decl.methods) :
    ∃ m : MemberLayout layout.pool, method.ReadFrom ⟨layout.version, decl.name, decl.access⟩ keepBytes m := by
  obtain ⟨i, hi⟩ := List.mem_iff_getElem?.mp hmethod
  obtain ⟨m, _, hread⟩ := forall₂_getElem? h.methods hi
  exact ⟨m, hread⟩

/-- The code of every method was accepted, with the pool of the file. -/
theorem ReadFrom.code_accepted (h : decl.ReadFrom keepBytes layout) (hmethod : method ∈ decl.methods)
    {code : Code} (hcode : code ∈ method.code) :
    ∃ source rest raw steps, Accepted layout.pool
      (method.header.context ⟨layout.version, decl.name, decl.access⟩) source rest code raw steps := by
  obtain ⟨m, hread⟩ := h.method_read hmethod
  rcases hread.code with ⟨_, _, hnone⟩ | ⟨_, f, found, c, _, hrun, _, hfound⟩
  · rw [hnone] at hcode
    cases hcode
  · rw [hfound] at hcode
    cases hcode
    obtain ⟨raw, steps, haccepted⟩ := Code.read_ok hrun
    exact ⟨_, c, raw, steps, haccepted⟩

end TypeDecl

end ClassFile
