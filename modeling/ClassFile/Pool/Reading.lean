import ClassFile.Pool.Basic
import ClassFile.FileReader

/-! Reading a constant pool: its count, then one entry for each index from one on, where a wide entry
counts for two. Nothing that an entry refers to is looked at here. -/

namespace ClassFile.Pool

namespace Entry

/-- Reads a text behind its length, which takes two bytes. -/
def readText : FileReader Text := do
  let bytes ← Reader.list Reader.u8
  match ModifiedUtf8.decode bytes with
  | .ok text => return text
  | .error fault => FileReader.fail (.encoding fault)

/-- Reads an entry of a kind, without the byte that marks it. -/
def read : Tag → FileReader Entry
  | .utf8 => return .utf8 (← readText)
  | .integer => return .integer (← Reader.i32)
  | .float => return .float (← Reader.u32)
  | .long => return .long (← Reader.i64)
  | .double => return .double (← Reader.u64)
  | .classInfo => return .classInfo (← Reader.u16)
  | .string => return .string (← Reader.u16)
  | .fieldRef => return .fieldRef (← Reader.u16) (← Reader.u16)
  | .methodRef => return .methodRef (← Reader.u16) (← Reader.u16)
  | .interfaceMethodRef => return .interfaceMethodRef (← Reader.u16) (← Reader.u16)
  | .nameAndType => return .nameAndType (← Reader.u16) (← Reader.u16)
  | .methodHandle => return .methodHandle (← Reader.u8) (← Reader.u16)
  | .methodType => return .methodType (← Reader.u16)
  | .dynamic => return .dynamic (← Reader.u16) (← Reader.u16)
  | .invokeDynamic => return .invokeDynamic (← Reader.u16) (← Reader.u16)
  | .moduleInfo => return .moduleInfo (← Reader.u16)
  | .packageInfo => return .packageInfo (← Reader.u16)

end Entry

/-- Reads the byte that marks the entry at an index, which has to be allowed in a version. -/
def readTag (version : Version) (index : UInt16) : FileReader Tag := do
  let byte ← Reader.u8
  match Tag.ofByte? byte with
  | none => FileReader.ofPool (.error ⟨index, .unknownTag byte⟩)
  | some tag =>
    if version.compare tag.introducedIn = .lt then
      FileReader.ofPool (.error ⟨index, .tagNotAllowed tag⟩)
    else
      return tag

def readEntry (version : Version) (pool : Pool) (index : UInt16) : FileReader (Tag × Pool) := do
  let tag ← readTag version index
  let entry ← FileReader.within (.readingEntry index tag) (Entry.read tag)
  let pool ← pool.insert index entry
  return (tag, pool)

def readEntriesFrom (version : Version) (count index : Nat) (pool : Pool) : FileReader Pool := do
  if index < count then
    let (tag, pool) ← readEntry version pool (UInt16.ofNat index)
    readEntriesFrom version count (index + if tag.isWide then 2 else 1) pool
  else
    return pool
  termination_by count - index
  decreasing_by split <;> omega

/-- Reads a constant pool of a class file of a version. -/
def read (version : Version) : FileReader Pool := do
  let count ← Reader.u16
  if count = 0 then FileReader.fail (.container .emptyPool)
  readEntriesFrom version count.toNat 1 (empty count)

end ClassFile.Pool
