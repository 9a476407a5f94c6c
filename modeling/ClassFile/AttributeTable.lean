import ClassFile.FileReader
import ClassFile.Pool.Resolve

/-! Attribute tables. An attribute has a name and contents of a given length. Attributes that are not
predefined are read over; all others have to be read to their end. -/

namespace ClassFile

namespace AttributeTable

/-- Reads the name of an attribute and splits off its contents. An attribute that is not predefined gives
nothing. -/
def frame (pool : Pool) (location : Location) (version : Version) :
    FileReader (Option (Attribute × Cursor)) := do
  let name ← pool.utf8At (← Reader.u16)
  let length ← Reader.u32
  let contents ← Reader.take length.toNat
  match Attribute.ofText? name with
  | none => return none
  | some found =>
    match found.check location version with
    | .error fault => FileReader.failStructure (.attributePlace fault)
    | .ok () => return some (found, contents)

/-- Reads an attribute. What it says is added to what was said so far. -/
def readOne {α : Type} (pool : Pool) (location : Location) (version : Version)
    (add : α → Attribute → FileReader α) (so : α) : FileReader α := do
  match ← frame pool location version with
  | none => return so
  | some (found, contents) =>
    Reader.runOn contents do
      let after ← add so found
      FileReader.finish (found.name ++ " attribute")
      return after

def read {α : Type} (pool : Pool) (location : Location) (version : Version)
    (add : α → Attribute → FileReader α) (none : α) : FileReader α := do
  let count ← Reader.u16
  iterate (readOne pool location version add) none count.toNat

end AttributeTable

end ClassFile
