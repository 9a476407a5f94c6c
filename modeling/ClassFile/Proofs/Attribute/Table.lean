import ClassFile.AttributeTable
import ClassFile.Proofs.Parsing

/-! Attribute tables as bytes. A table is written as the number of its attributes and the attributes one after
the other, each framed by the index of its name and its length. What is read from a table is what the
attributes say in turn, starting from what no attributes say. -/

namespace ClassFile

open FileReader Reader

/-- An attribute as it is written: its name is found in the pool at an index, and its contents are as long as
the length that stands before them. -/
structure FramedAttribute (pool : Pool) where
  index : UInt16
  name : Text
  contents : List UInt8
  named : pool.utf8At index = .ok name
  fits : contents.length < 2 ^ 32

namespace FramedAttribute

variable {pool : Pool}

/-- The predefined attribute that an attribute is, if it is one. -/
def predefined? (f : FramedAttribute pool) : Option Attribute := Attribute.ofText? f.name

theorem name_of_predefined? {f : FramedAttribute pool} {found : Attribute} (h : f.predefined? = some found) :
    f.name = Text.ofString found.name := by
  unfold predefined? Attribute.ofText? at h
  have hname := List.find?_some h
  exact (of_decide_eq_true hname).symm

/-- The bytes that write an attribute. -/
def bytes (f : FramedAttribute pool) : List UInt8 :=
  bigEndianBytes 2 f.index.toNat ++ (bigEndianBytes 4 f.contents.length ++ f.contents)

/-- The bytes that write a table of attributes. -/
def table (attributes : List (FramedAttribute pool)) : List UInt8 :=
  bigEndianBytes 2 attributes.length ++ attributes.flatMap bytes

end FramedAttribute

/-- What a reader finds in bytes that it reads to their end. -/
def FileReader.parseAll {α : Type} (reader : FileReader α) (contents : List UInt8) : Option α :=
  (parse reader contents).bind fun found => if found.2.isEmpty then some found.1 else none

theorem FileReader.parseAll_ok {α : Type} {reader : FileReader α} {contents : List UInt8} {a : α}
    (h : parseAll reader contents = some a) : ∃ c', reader (.ofBytes contents) = .ok a c' ∧ c'.rest = [] := by
  unfold parseAll at h
  obtain ⟨⟨b, rest⟩, hparse, hend⟩ := Option.bind_eq_some_iff.mp h
  dsimp only at hend
  split at hend
  · rename_i hempty
    cases hend
    obtain ⟨c', hrun, hrest⟩ := parse_eq_some.mp hparse
    exact ⟨c', hrun, hrest.trans (List.isEmpty_iff.mp hempty)⟩
  · cases hend

namespace AttributeTable

variable {α : Type} {pool : Pool} (location : Location) (version : Version)
  (add : α → Attribute → FileReader α)

/-- What is said after an attribute. Attributes that are not predefined say nothing. -/
def said? (so : α) (f : FramedAttribute pool) : Option α :=
  match f.predefined? with
  | none => some so
  | some found =>
    match found.check location version with
    | .error _ => none
    | .ok () => parseAll (add so found) f.contents

/-- Reads the contents of an attribute to their end. -/
def readContents (so : α) (found : Attribute) : FileReader α := do
  let after ← add so found
  FileReader.finish (found.name ++ " attribute")
  return after

/-- Reads the contents of an attribute with a name. -/
def readNamed (so : α) (name : Text) (contents : Cursor) : FileReader α :=
  match Attribute.ofText? name with
  | none => pure so
  | some found =>
    match found.check location version with
    | .error fault => FileReader.failStructure (.attributePlace fault)
    | .ok () => runOn contents (readContents add so found)

/-- Reads the name of an attribute and the length of its contents. -/
def readHeader (pool : Pool) : FileReader (Text × UInt32) := do
  let name ← FileReader.ofPool (pool.utf8At (← u16))
  let length ← u32
  return (name, length)

theorem readOne_eq (so : α) :
    readOne pool location version add so =
      readHeader pool >>= fun header =>
        take header.2.toNat >>= readNamed location version add so header.1 := by
  unfold readOne frame readHeader
  simp only [bind_assoc, pure_bind]
  refine bind_congr fun index => bind_congr fun name => bind_congr fun length =>
    bind_congr fun contents => ?_
  unfold readNamed
  cases Attribute.ofText? name with
  | none => rfl
  | some found => cases hcheck : found.check location version <;> simp only [hcheck] <;> rfl

theorem placeless_readHeader (pool : Pool) : Placeless (readHeader pool) :=
  placeless_atIndex pool.utf8At fun _ => .bind placeless_u32 fun _ => .pure _

theorem parse_readHeader (f : FramedAttribute pool) (more : List UInt8) :
    parse (readHeader pool) (bigEndianBytes 2 f.index.toNat ++ (bigEndianBytes 4 f.contents.length ++ more)) =
      some ((f.name, UInt32.ofNat f.contents.length), more) := by
  have hname : ∀ bytes, parse (ofPool (pool.utf8At f.index)) bytes = some (f.name, bytes) := fun bytes => by
    rw [parse_ofPool, f.named]
    rfl
  unfold readHeader
  rw [parse_bind_some (fun _ => .bind (placeless_ofPool _) fun _ => .bind placeless_u32 fun _ => .pure _)
      (parse_u16 f.index _),
    parse_bind_some (fun _ => .bind placeless_u32 fun _ => .pure _) (hname _),
    parse_bind_some (fun _ => .pure _) (parse_u32_ofNat f.fits more), parse_pure]

theorem readHeader_spells {header : Text × UInt32} {data more : List UInt8}
    (h : parse (readHeader pool) data = some (header, more)) :
    ∃ index, pool.utf8At index = .ok header.1 ∧
      data = bigEndianBytes 2 index.toNat ++ (bigEndianBytes 4 header.2.toNat ++ more) := by
  unfold readHeader at h
  obtain ⟨index, left, hindex, h⟩ := parse_bind_ok
    (fun _ => .bind (placeless_ofPool _) fun _ => .bind placeless_u32 fun _ => .pure _) h
  obtain ⟨name, left', hname, h⟩ := parse_bind_ok (fun _ => .bind placeless_u32 fun _ => .pure _) h
  obtain ⟨length, left'', hlength, h⟩ := parse_bind_ok (fun _ => .pure _) h
  cases h
  rw [parse_ofPool, Option.map_eq_some_iff] at hname
  obtain ⟨_, hresolve, hsame⟩ := hname
  cases hsame
  refine ⟨index, toOption_eq_some.mp hresolve, ?_⟩
  rw [parse_u16_ok hindex, parse_u32_ok hlength]
  rfl

section Placeless

variable {location version add}

theorem placeless_readContents (hadd : ∀ so found, Placeless (add so found)) (so : α)
    (found : Attribute) : Placeless (readContents add so found) :=
  .bind (hadd so found) fun _ => .bind (placeless_finish _) fun _ => .pure _

theorem agree_readNamed (hadd : ∀ so found, Placeless (add so found)) (so : α) (name : Text)
    {c d s t : Cursor} (hcontents : c.SameAhead d) (hsame : s.SameAhead t) :
    Agree Cursor.SameAhead (fun _ => False) (readNamed location version add so name c s)
      (readNamed location version add so name d t) := by
  unfold readNamed
  cases Attribute.ofText? name with
  | none => exact ⟨rfl, hsame⟩
  | some found =>
      dsimp only
      cases found.check location version with
      | error fault => trivial
      | ok _ => exact agree_runOn (placeless_readContents hadd so found) hcontents hsame

theorem placeless_take_readNamed (hadd : ∀ so found, Placeless (add so found)) (so : α) (name : Text)
    (n : Nat) : Placeless (take n >>= readNamed location version add so name) :=
  placeless_take_bind fun _ _ hcontents _ _ hsame => agree_readNamed hadd so name hcontents hsame

theorem placeless_readOne (hadd : ∀ so found, Placeless (add so found)) (so : α) :
    Placeless (readOne pool location version add so) := by
  rw [readOne_eq]
  exact .bind (placeless_readHeader pool) fun _ => placeless_take_readNamed hadd so _ _

theorem placeless_read (hadd : ∀ so found, Placeless (add so found)) (none : α) :
    Placeless (read pool location version add none) :=
  .bind placeless_u16 fun _ => .iterate (placeless_readOne hadd) none _

end Placeless

section Parse

variable {location version add} (hadd : ∀ so found, Placeless (add so found))

theorem parse_readContents (so : α) (found : Attribute) (contents : List UInt8) :
    parse (readContents add so found) contents =
      (parseAll (add so found) contents).map fun after => (after, []) := by
  unfold readContents parseAll
  rw [parse_bind _ fun _ => .bind (placeless_finish _) fun _ => .pure _]
  cases parse (add so found) contents with
  | none => rfl
  | some found =>
      obtain ⟨after, rest⟩ := found
      rw [Option.bind_some, Option.bind_some, parse_bind _ fun _ => .pure _, parse_finish]
      cases rest <;> rfl

include hadd

theorem parse_readNamed (so : α) (f : FramedAttribute pool) (more : List UInt8) :
    parse (readNamed location version add so f.name (.ofBytes f.contents)) more =
      (said? location version add so f).map fun after => (after, more) := by
  unfold readNamed said? FramedAttribute.predefined?
  cases Attribute.ofText? f.name with
  | none => rfl
  | some found =>
      dsimp only
      cases found.check location version with
      | error fault => rfl
      | ok _ =>
          dsimp only
          rw [parse_runOn (placeless_readContents hadd so found)]
          change Option.map _ (parse _ f.contents) = _
          rw [parse_readContents, Option.map_map]
          rfl

/-- An attribute is read from the bytes that write it, and what it says is added. -/
theorem parse_readOne (so : α) (f : FramedAttribute pool) (more : List UInt8) :
    parse (readOne pool location version add so) (f.bytes ++ more) =
      (said? location version add so f).map fun after => (after, more) := by
  have hlength : f.contents.length = (UInt32.ofNat f.contents.length).toNat :=
    (UInt32.toNat_ofNat_of_lt' f.fits).symm
  have hnamed : ∀ contents, Placeless (readNamed location version add so f.name contents) :=
    fun contents s t hsame => agree_readNamed hadd so f.name rfl hsame
  rw [readOne_eq, FramedAttribute.bytes, List.append_assoc, List.append_assoc,
    parse_bind_some (fun _ => placeless_take_readNamed hadd so _ _) (parse_readHeader f _),
    parse_take_bind hnamed hlength, parse_readNamed hadd]

theorem parse_iterate (attributes : List (FramedAttribute pool)) (so : α) (more : List UInt8) :
    parse (iterate (readOne pool location version add) so attributes.length)
        (attributes.flatMap FramedAttribute.bytes ++ more) =
      (attributes.foldlM (said? location version add) so).map fun after => (after, more) := by
  induction attributes generalizing so with
  | nil => rfl
  | cons f rest ih =>
      rw [List.flatMap_cons, List.append_assoc, List.length_cons, List.foldlM_cons]
      change parse (readOne pool location version add so >>= fun next =>
        iterate (readOne pool location version add) next rest.length) _ = _
      rw [parse_bind _ fun next => .iterate (placeless_readOne hadd) next _, parse_readOne hadd]
      cases said? location version add so f with
      | none => rfl
      | some after => exact ih after

/-- A table is read from the bytes that write it: what its attributes say is added in turn. -/
theorem parse_read (none : α) {attributes : List (FramedAttribute pool)}
    (hcount : attributes.length < 65536) (more : List UInt8) :
    parse (read pool location version add none) (FramedAttribute.table attributes ++ more) =
      (attributes.foldlM (said? location version add) none).map fun after => (after, more) := by
  unfold read
  rw [FramedAttribute.table, List.append_assoc,
    parse_bind_some (fun _ => .iterate (placeless_readOne hadd) none _) (parse_u16_ofNat hcount _),
    UInt16.toNat_ofNat_of_lt' hcount]
  exact parse_iterate hadd attributes none more

end Parse

section Spelling

variable {location version add} (hadd : ∀ so found, Placeless (add so found))
include hadd

theorem readOne_spells {so after : α} {data more : List UInt8}
    (h : parse (readOne pool location version add so) data = some (after, more)) :
    ∃ f : FramedAttribute pool, data = f.bytes ++ more := by
  -- once the bytes are known to be a frame, that they are read over to its end follows from reading it
  have hone := h
  rw [readOne_eq] at h
  obtain ⟨⟨name, length⟩, left, hheader, hrest⟩ :=
    parse_bind_ok (fun _ => placeless_take_readNamed hadd so _ _) h
  obtain ⟨index, hnamed, rfl⟩ := readHeader_spells hheader
  obtain ⟨contents, behind, rfl, hcontents⟩ := parse_take_bind_ok hrest
  have hfits : contents.length < 2 ^ 32 := hcontents ▸ length.toNat_lt
  let f : FramedAttribute pool := ⟨index, name, contents, hnamed, hfits⟩
  have hbytes : bigEndianBytes 2 index.toNat ++ (bigEndianBytes 4 length.toNat ++ (contents ++ behind)) =
      f.bytes ++ behind := by
    rw [FramedAttribute.bytes, List.append_assoc, List.append_assoc]
    change _ = bigEndianBytes 2 index.toNat ++ (bigEndianBytes 4 contents.length ++ _)
    rw [hcontents]
  refine ⟨f, ?_⟩
  rw [hbytes, parse_readOne hadd, Option.map_eq_some_iff] at hone
  obtain ⟨_, _, hsame⟩ := hone
  cases hsame
  exact hbytes

theorem iterate_spells {n : Nat} {so after : α} {data more : List UInt8}
    (h : parse (iterate (readOne pool location version add) so n) data = some (after, more)) :
    ∃ attributes : List (FramedAttribute pool), attributes.length = n ∧
      data = attributes.flatMap FramedAttribute.bytes ++ more := by
  induction n generalizing so data with
  | zero =>
      cases h
      exact ⟨[], rfl, rfl⟩
  | succ n ih =>
      change parse (readOne pool location version add so >>= fun next =>
        iterate (readOne pool location version add) next n) _ = _ at h
      obtain ⟨next, left, hone, hrest⟩ :=
        parse_bind_ok (fun next => .iterate (placeless_readOne hadd) next _) h
      obtain ⟨f, rfl⟩ := readOne_spells hadd hone
      obtain ⟨attributes, hlength, rfl⟩ := ih hrest
      exact ⟨f :: attributes, congrArg (· + 1) hlength, by rw [List.flatMap_cons, List.append_assoc]⟩

/-- What is read as a table was written as one. -/
theorem read_spells {none after : α} {data more : List UInt8}
    (h : parse (read pool location version add none) data = some (after, more)) :
    ∃ attributes : List (FramedAttribute pool), attributes.length < 65536 ∧
      data = FramedAttribute.table attributes ++ more := by
  unfold read at h
  obtain ⟨count, left, hcount, h⟩ := parse_bind_ok (fun _ => .iterate (placeless_readOne hadd) none _) h
  obtain ⟨attributes, hlength, rfl⟩ := iterate_spells hadd h
  refine ⟨attributes, hlength ▸ count.toNat_lt, ?_⟩
  rw [parse_u16_ok hcount, FramedAttribute.table, hlength, List.append_assoc]

end Spelling

section Saying

variable {location version add}

/-- What a table of attributes says is what they say in turn. -/
theorem read_ok (hadd : ∀ so found, Placeless (add so found)) {none after : α} {c c' : Cursor}
    (h : read pool location version add none c = .ok after c') :
    ∃ attributes : List (FramedAttribute pool), attributes.length < 65536 ∧
      c.rest = FramedAttribute.table attributes ++ c'.rest ∧
      attributes.foldlM (said? location version add) none = some after := by
  have hparse := (parse_rest (placeless_read hadd none) c).mpr ⟨c', h, rfl⟩
  obtain ⟨attributes, hcount, hbytes⟩ := read_spells hadd hparse
  refine ⟨attributes, hcount, hbytes, ?_⟩
  rw [hbytes, parse_read hadd none hcount, Option.map_eq_some_iff] at hparse
  obtain ⟨_, hsaid, hsame⟩ := hparse
  cases hsame
  exact hsaid

/-- What a predefined attribute says is read from its contents, over to their end. -/
theorem said?_ok {so after : α} {f : FramedAttribute pool} (h : said? location version add so f = some after) :
    f.predefined? = none ∧ after = so ∨
      ∃ found c, f.predefined? = some found ∧ add so found (.ofBytes f.contents) = .ok after c ∧ c.rest = [] := by
  unfold said? at h
  split at h
  · rename_i hnone
    cases h
    exact .inl ⟨hnone, rfl⟩
  · rename_i found hfound
    split at h
    · cases h
    · obtain ⟨c, hrun, hrest⟩ := parseAll_ok h
      exact .inr ⟨found, c, hfound, hrun, hrest⟩

/-- What no attribute changes is as it was before. -/
theorem foldlM_said?_keeps {Kept : α → Prop}
    (hadd : ∀ so found, Kept so → Gives Kept (add so found))
    {attributes : List (FramedAttribute pool)} {so after : α} (hso : Kept so)
    (h : attributes.foldlM (said? location version add) so = some after) : Kept after := by
  induction attributes generalizing so with
  | nil =>
      cases h
      exact hso
  | cons f rest ih =>
      rw [List.foldlM_cons] at h
      obtain ⟨between, hfirst, hrest⟩ := Option.bind_eq_some_iff.mp h
      refine ih ?_ hrest
      rcases said?_ok hfirst with ⟨_, rfl⟩ | ⟨found, c, _, hrun, _⟩
      · exact hso
      · exact (hadd so found hso).of_ok hrun

end Saying

end AttributeTable

end ClassFile
