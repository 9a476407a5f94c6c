import ClassFile.Proofs.Attribute.Placing
import ClassFile.Proofs.Code.Contents

/-! Rearranged attributes. The attributes of fields, methods, types and code can be given in any order that
keeps those with the same name in theirs, and attributes that are not predefined can be added or left out.
The declaration or code that is found is the same, or there is none both times. -/

namespace ClassFile

open FileReader Reader

namespace FramedAttribute

variable {pool : Pool} {α : Type} {these those : List (FramedAttribute pool)}

/-- Behind a front, a reader finds the same in two tables of attributes and reads them to their ends, or it
fails on both of them. -/
def ReadAlike (reader : FileReader α) (front : List UInt8) (these those : List (FramedAttribute pool)) : Prop :=
  ∀ (more : List UInt8) (c d : Cursor), c.rest = front ++ (table these ++ more) →
    d.rest = front ++ (table those ++ more) →
      Agree (fun s t => s.rest = more ∧ t.rest = more) (fun _ => False) (reader c) (reader d)

theorem readAlike_of_parse {reader : FileReader α} {front : List UInt8} (h : Placeless reader)
    (hsame : ∀ more, parse reader (front ++ (table these ++ more)) =
      parse reader (front ++ (table those ++ more)))
    (hend : ∀ more a rest, parse reader (front ++ (table these ++ more)) = some (a, rest) → rest = more) :
    ReadAlike reader front these those := by
  intro more c d hc hd
  refine agree_of_parse h h ?_ ?_
  · rw [hc, hd]
    exact hsame more
  · rw [hc]
    exact hend more

end FramedAttribute

open FramedAttribute

section Tables

variable {α β : Type} {pool : Pool} {location : Location} {version : Version}
  {add : α → Attribute → FileReader α} {placing : Attribute → Placing α}
  {these those : List (FramedAttribute pool)}

/-- What is made of the attributes of a table without reading on is the same for tables that are alike. -/
theorem AttributeTable.readAlike (h : Alike these those) (hthese : these.length < 65536)
    (hthose : those.length < 65536) (hadd : ∀ so found, Placeless (add so found))
    (hplacing : ∀ so found, add so found = (placing found).add so)
    (hexchange : ∀ a b, a ≠ b → (placing a).Exchange (placing b)) (none : α) {next : α → FileReader β}
    (hnext : ∀ so, Placeless (next so))
    (hend : ∀ so more b rest, parse (next so) more = some (b, rest) → rest = more) :
    ReadAlike (read pool location version add none >>= next) [] these those := by
  have htable : ∀ {attributes : List (FramedAttribute pool)}, attributes.length < 65536 → ∀ more,
      parse (read pool location version add none >>= next) (table attributes ++ more) =
        (attributes.foldlM (said? location version add) none).bind fun so => parse (next so) more := by
    intro attributes hcount more
    rw [parse_bind _ hnext, parse_read hadd none hcount]
    cases attributes.foldlM (said? location version add) none <;> rfl
  refine readAlike_of_parse (.bind (placeless_read hadd none) hnext) (fun more => ?_)
    fun more b rest hfound => ?_
  · rw [List.nil_append, List.nil_append, htable hthese, htable hthose,
      foldlM_said?_alike hplacing hexchange h none]
  · rw [List.nil_append, htable hthese, Option.bind_eq_some_iff] at hfound
    obtain ⟨so, _, hfound⟩ := hfound
    exact hend so more b rest hfound

variable (h : Alike these those) (hthese : these.length < 65536) (hthose : those.length < 65536)
include h hthese hthose

theorem FieldDecl.readAlike (version : Version) (owner : ClassAccess) (field : FieldDecl) :
    ReadAlike (complete pool version owner field) [] these those := by
  unfold complete
  split
  · exact fun _ _ _ _ _ => trivial
  · rw [← bind_pure (AttributeTable.read _ _ _ _ _)]
    refine AttributeTable.readAlike h hthese hthose (placeless_add pool) (add_eq pool) (exchange pool) field
      (fun _ => .pure _) fun so more b rest hfound => ?_
    cases hfound
    rfl

theorem MethodDecl.readAlike (owner : MethodOwner) (keepBytes : Bool) (header : MethodHeader) :
    ReadAlike (complete pool owner keepBytes header) [] these those := by
  unfold complete
  split
  · exact fun _ _ _ _ _ => trivial
  · refine AttributeTable.readAlike h hthese hthose (MethodAttributes.placeless_add pool _ _ _)
      (MethodAttributes.add_eq pool _ _ _) (MethodAttributes.exchange pool _ _ _) .none
      (fun so => ?_) fun so more b rest hfound => ?_
    · split
      · exact .throw_bind _ _
      · exact .pure _
    · split at hfound
      · cases hfound
      · cases hfound
        rfl

theorem TypeAttributes.readAlike (version : Version) : ReadAlike (read pool version) [] these those := by
  unfold read
  refine AttributeTable.readAlike h hthese hthose (placeless_add pool) (add_eq pool) (exchange pool) .none
    (fun so => ?_) fun so more b rest hfound => ?_
  · split
    · exact .throw_bind _ _
    · exact .pure _
  · split at hfound
    · cases hfound
    · cases hfound
      rfl

theorem Code.readAlike (method : MethodContext) (keepBytes : Bool) (front : CodeFront) :
    ReadAlike (read pool method keepBytes) front.bytes these those := by
  have hsaid : front.said? pool method these = front.said? pool method those :=
    AttributeTable.foldlM_said?_alike (CodeAttributes.add_eq pool method _)
      (CodeAttributes.exchange pool method _) h .none
  refine readAlike_of_parse (placeless_read pool method keepBytes) (fun more => ?_) fun more b rest hfound => ?_
  · rw [parse_read pool method keepBytes front hthese, hsaid, parse_read pool method keepBytes front hthose]
  · rw [parse_read pool method keepBytes front hthese, Option.map_eq_some_iff] at hfound
    obtain ⟨_, _, hsame⟩ := hfound
    cases hsame
    rfl

/-- Tables of attributes that are alike are read alike wherever there are tables: for fields, methods and types,
and behind the code of a method. -/
theorem FramedAttribute.Alike.tables_read_alike :
    (∀ version owner field, ReadAlike (FieldDecl.complete pool version owner field) [] these those) ∧
      (∀ owner keepBytes header, ReadAlike (MethodDecl.complete pool owner keepBytes header) [] these those) ∧
      (∀ version, ReadAlike (TypeAttributes.read pool version) [] these those) ∧
      ∀ method keepBytes (front : CodeFront),
        ReadAlike (Code.read pool method keepBytes) front.bytes these those :=
  ⟨FieldDecl.readAlike h hthese hthose, MethodDecl.readAlike h hthese hthose,
    TypeAttributes.readAlike h hthese hthose, Code.readAlike h hthese hthose⟩

end Tables

section Sample

/-- A pool with the names of a few attributes. -/
def namesPool : Pool :=
  ⟨#[.vacant, .entry (.utf8 (.ofString "SourceFile")), .entry (.utf8 (.ofString "Deprecated")),
    .entry (.utf8 (.ofString "Comment"))]⟩

def sampleSource : FramedAttribute namesPool := ⟨1, .ofString "SourceFile", [0, 3], rfl, by decide⟩

def sampleMark : FramedAttribute namesPool := ⟨2, .ofString "Deprecated", [], rfl, by decide⟩

def sampleComment : FramedAttribute namesPool := ⟨3, .ofString "Comment", [1, 2, 3], rfl, by decide⟩

/-- The source file and the mark are found in either order, also with a comment between them. -/
theorem sampleSource_read :
    Alike [sampleSource, sampleMark] [sampleMark, sampleComment, sampleSource] ∧
      ∃ so after after',
        TypeAttributes.read namesPool ⟨52, 0⟩ (.ofBytes (table [sampleSource, sampleMark])) = .ok so after ∧
        TypeAttributes.read namesPool ⟨52, 0⟩
          (.ofBytes (table [sampleMark, sampleComment, sampleSource])) = .ok so after' ∧
        so.sourceFile = some (.ofString "Comment") ∧ so.isDeprecated = true := by
  have halike : Alike [sampleSource, sampleMark] [sampleMark, sampleComment, sampleSource] :=
    (Alike.swap [] [] (by decide +kernel)).trans (.insert [sampleMark] [sampleSource] (by decide +kernel))
  obtain ⟨so, after, hread, hso⟩ : ∃ so after,
      TypeAttributes.read namesPool ⟨52, 0⟩ (.ofBytes (table [sampleSource, sampleMark])) = .ok so after ∧
        (so.sourceFile = some (.ofString "Comment") ∧ so.isDeprecated = true) :=
    ok_of_success? (by decide +kernel)
  obtain ⟨_, _, htypes, _⟩ := halike.tables_read_alike (by decide) (by decide)
  obtain ⟨after', hread', _⟩ :=
    (htypes ⟨52, 0⟩ [] _ (.ofBytes (table [sampleMark, sampleComment, sampleSource]))
      (by rw [List.append_nil]; rfl) (by rw [List.append_nil]; rfl)).of_first hread
  exact ⟨halike, so, after, after', hread, hread', hso⟩

end Sample

end ClassFile
