import ClassFile.Proofs.Attribute.Table
import ClassFile.Proofs.Pool.Encoding
import ClassFile.Declaration.Reading

/-! Class files as bytes. Behind the version and the constant pool stand the headers of the type and of its
members, which name everything by an index of the pool, and each of them with a table of attributes. All
parts tell where they end, so that a file is written in one way only. -/

namespace ClassFile

/-- A field or a method as it is written: its access flags, the indices of its name and its descriptor, and
its attributes. -/
structure MemberLayout (pool : Pool) where
  access : UInt16
  name : UInt16
  descriptor : UInt16
  attributes : List (FramedAttribute pool)
  fits : attributes.length < 65536

namespace MemberLayout

variable {pool : Pool}

/-- The bytes that write a member. -/
def bytes (m : MemberLayout pool) : List UInt8 :=
  bigEndianBytes 2 m.access.toNat ++ (bigEndianBytes 2 m.name.toNat ++
    (bigEndianBytes 2 m.descriptor.toNat ++ FramedAttribute.table m.attributes))

/-- The bytes that write a list of members. -/
def list (members : List (MemberLayout pool)) : List UInt8 :=
  bigEndianBytes 2 members.length ++ members.flatMap bytes

/-- A member is declared with two texts, those of its name and of its descriptor. -/
structure Declares (m : MemberLayout pool) (name descriptor : Text) : Prop where
  name : pool.utf8At m.name = .ok name
  descriptor : pool.utf8At m.descriptor = .ok descriptor

end MemberLayout

/-- A class file as it is written. -/
structure ClassLayout where
  version : Version
  pool : Pool
  access : UInt16
  name : UInt16
  superClass : UInt16
  interfaces : List UInt16
  fields : List (MemberLayout pool)
  methods : List (MemberLayout pool)
  attributes : List (FramedAttribute pool)
  poolWritable : pool.Writable version
  interfacesFit : interfaces.length < 65536
  fieldsFit : fields.length < 65536
  methodsFit : methods.length < 65536
  attributesFit : attributes.length < 65536

namespace ClassLayout

/-- The bytes that write a class file. -/
def bytes (layout : ClassLayout) : List UInt8 :=
  bigEndianBytes 4 TypeDecl.magic.toNat ++ (bigEndianBytes 2 layout.version.minor.toNat ++
    (bigEndianBytes 2 layout.version.major.toNat ++ (layout.pool.encode ++
      (bigEndianBytes 2 layout.access.toNat ++ (bigEndianBytes 2 layout.name.toNat ++
        (bigEndianBytes 2 layout.superClass.toNat ++
          ((bigEndianBytes 2 layout.interfaces.length ++
              layout.interfaces.flatMap fun index => bigEndianBytes 2 index.toNat) ++
            (MemberLayout.list layout.fields ++ (MemberLayout.list layout.methods ++
              FramedAttribute.table layout.attributes)))))))))

end ClassLayout

/-- What is written can be told from what follows it: nothing that is written begins with anything else that
is written in the same way. -/
def SelfDelimiting {α : Type} (write : α → List UInt8) : Prop :=
  ∀ ⦃a b s t⦄, write a ++ s = write b ++ t → a = b ∧ s = t

theorem bigEndianBytes_append_inj {width n m : Nat} {s t : List UInt8} (hn : n < 256 ^ width)
    (hm : m < 256 ^ width) (h : bigEndianBytes width n ++ s = bigEndianBytes width m ++ t) : n = m ∧ s = t := by
  obtain ⟨hnumber, hrest⟩ := List.append_inj h (by rw [length_bigEndianBytes, length_bigEndianBytes])
  rw [← bigEndian_bigEndianBytes hn, ← bigEndian_bigEndianBytes hm, hnumber]
  exact ⟨rfl, hrest⟩

namespace SelfDelimiting

variable {α : Type} {write : α → List UInt8}

theorem u16 : SelfDelimiting fun n : UInt16 => bigEndianBytes 2 n.toNat := by
  intro n m s t h
  obtain ⟨hnumber, hrest⟩ := bigEndianBytes_append_inj n.toNat_lt m.toNat_lt h
  exact ⟨UInt16.toNat_inj.mp hnumber, hrest⟩

/-- Items can be told apart if it is known how many there are. -/
theorem flatMap (hwrite : SelfDelimiting write) {as bs : List α} {s t : List UInt8}
    (hlength : as.length = bs.length) (h : as.flatMap write ++ s = bs.flatMap write ++ t) :
    as = bs ∧ s = t := by
  induction as generalizing bs with
  | nil =>
      rw [List.eq_nil_of_length_eq_zero hlength.symm] at h ⊢
      exact ⟨rfl, h⟩
  | cons a as ih =>
      cases bs with
      | nil => cases hlength
      | cons b bs =>
          rw [List.flatMap_cons, List.flatMap_cons, List.append_assoc, List.append_assoc] at h
          obtain ⟨hfirst, hrest⟩ := hwrite h
          obtain ⟨hothers, hend⟩ := ih (Nat.succ.inj hlength) hrest
          exact ⟨by rw [hfirst, hothers], hend⟩

/-- A list behind the number of its items. -/
theorem counted (hwrite : SelfDelimiting write) {as bs : List α} {s t : List UInt8}
    (has : as.length < 65536) (hbs : bs.length < 65536)
    (h : (bigEndianBytes 2 as.length ++ as.flatMap write) ++ s =
      (bigEndianBytes 2 bs.length ++ bs.flatMap write) ++ t) : as = bs ∧ s = t := by
  rw [List.append_assoc, List.append_assoc] at h
  obtain ⟨hlength, h⟩ := bigEndianBytes_append_inj has hbs h
  exact hwrite.flatMap hlength h

end SelfDelimiting

open SelfDelimiting

namespace FramedAttribute

variable {pool : Pool}

theorem selfDelimiting : SelfDelimiting (@bytes pool) := by
  intro f g s t h
  rw [bytes, bytes, List.append_assoc, List.append_assoc, List.append_assoc, List.append_assoc] at h
  obtain ⟨hindex, hframe⟩ := u16 h
  obtain ⟨hlength, hcontents⟩ := bigEndianBytes_append_inj f.fits g.fits hframe
  obtain ⟨hcontents, hend⟩ := List.append_inj hcontents hlength
  refine ⟨?_, hend⟩
  obtain ⟨index, name, contents, hnamed, _⟩ := f
  obtain ⟨_, _, _, hnamed', _⟩ := g
  cases hindex
  cases hcontents
  cases hnamed.symm.trans hnamed'
  rfl

theorem table_append_inj {as bs : List (FramedAttribute pool)} {s t : List UInt8} (has : as.length < 65536)
    (hbs : bs.length < 65536) (h : table as ++ s = table bs ++ t) : as = bs ∧ s = t :=
  selfDelimiting.counted has hbs h

end FramedAttribute

namespace MemberLayout

variable {pool : Pool}

theorem selfDelimiting : SelfDelimiting (@bytes pool) := by
  intro m n s t h
  simp only [bytes, List.append_assoc] at h
  obtain ⟨haccess, hmembers⟩ := u16 h
  obtain ⟨hname, hbehind⟩ := u16 hmembers
  obtain ⟨hdescriptor, htable⟩ := u16 hbehind
  obtain ⟨hattributes, hend⟩ := FramedAttribute.table_append_inj m.fits n.fits htable
  refine ⟨?_, hend⟩
  cases m
  cases n
  cases haccess
  cases hname
  cases hdescriptor
  cases hattributes
  rfl

theorem list_append_inj {as bs : List (MemberLayout pool)} {s t : List UInt8} (has : as.length < 65536)
    (hbs : bs.length < 65536) (h : list as ++ s = list bs ++ t) : as = bs ∧ s = t :=
  selfDelimiting.counted has hbs h

end MemberLayout

theorem Pool.encode_append_inj {version : Version} {pool other : Pool} {s t : List UInt8}
    (hpool : pool.Writable version) (hother : other.Writable version)
    (h : pool.encode ++ s = other.encode ++ t) : pool = other ∧ s = t := by
  have hpasses : ∀ (found : Pool) (more : List UInt8),
      Cursor.Passes found.encode (.ofBytes (found.encode ++ more)) ⟨0, 0 + found.encode.length, more⟩ :=
    fun _ _ => ⟨rfl, rfl⟩
  have hread := read_of_writable hpool (hpasses pool s)
  rw [h, read_of_writable hother (hpasses other t)] at hread
  cases hread
  exact ⟨rfl, List.append_cancel_left h⟩

namespace ClassLayout

/-- A class file is written in one way only. -/
theorem bytes_injective : Function.Injective bytes := by
  rintro ⟨⟨major, minor⟩, pool, access, name, superClass, interfaces, fields, methods, attributes, hpool,
    hinterfaces, hfields, hmethods, hattributes⟩ ⟨⟨major', minor'⟩, pool', access', name', superClass',
    interfaces', fields', methods', attributes', hpool', hinterfaces', hfields', hmethods', hattributes'⟩ h
  unfold bytes at h
  dsimp only at h
  obtain ⟨_, hversion⟩ := List.append_inj h rfl
  obtain ⟨rfl, hmajor⟩ := u16 hversion
  obtain ⟨rfl, hbehind⟩ := u16 hmajor
  obtain ⟨rfl, hheader⟩ := Pool.encode_append_inj hpool hpool' hbehind
  obtain ⟨rfl, hname⟩ := u16 hheader
  obtain ⟨rfl, hsuper⟩ := u16 hname
  obtain ⟨rfl, hlist⟩ := u16 hsuper
  obtain ⟨rfl, hmembers⟩ := u16.counted hinterfaces hinterfaces' hlist
  obtain ⟨rfl, hcode⟩ := MemberLayout.list_append_inj hfields hfields' hmembers
  obtain ⟨rfl, htable⟩ := MemberLayout.list_append_inj hmethods hmethods' hcode
  have hend : FramedAttribute.table attributes ++ [] = FramedAttribute.table attributes' ++ [] := by rw [htable]
  obtain ⟨rfl, _⟩ := FramedAttribute.table_append_inj hattributes hattributes' hend
  rfl

end ClassLayout

end ClassFile
