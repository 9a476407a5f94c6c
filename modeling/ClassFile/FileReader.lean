import ClassFile.Error
import ClassFile.Reader

/-! Reading the parts of a class file. Faults carry the places in which they were found, and each part adds
its own. -/

namespace ClassFile

instance : Truncatable Error := ⟨fun offset wanted => ⟨[], .truncated offset wanted⟩⟩

/-- Reading a part of a class file. -/
abbrev FileReader := Reader Error

namespace FileReader

def fail {α : Type} (fault : Fault) : FileReader α := throw ⟨[], fault⟩

def failStructure {α : Type} (fault : StructureFault) : FileReader α := fail (.structural fault)

/-- Takes a result of looking into a constant pool. -/
def ofPool {α : Type} : Except Pool.Located α → FileReader α
  | .ok value => pure value
  | .error located => fail (.pool located)

instance : MonadLift (Except Pool.Located) FileReader := ⟨ofPool⟩

/-- Takes a result of checking a part. -/
def ofExcept {α : Type} : Except Error α → FileReader α
  | .ok value => pure value
  | .error error => throw error

instance : MonadLift (Except Error) FileReader := ⟨ofExcept⟩

/-- Names the place of the faults that reading meets. -/
def within {α : Type} (place : Place) (reader : FileReader α) : FileReader α := fun cursor =>
  match reader cursor with
  | .ok value cursor => .ok value cursor
  | .error error cursor => .error { error with places := place :: error.places } cursor

/-- Checks that everything was read. -/
def finish (what : String) : FileReader Unit := do
  let cursor ← get
  if !cursor.isEmpty then failStructure (.unread what cursor.size cursor.position)

/-- Puts a value into a place that may be filled only once. -/
def fillOnce {α : Type} [Outlined α] (attributes : List Attribute) (old : Option α) (new : α) :
    FileReader (Option α) :=
  match old with
  | none => pure (some new)
  | some old =>
    within (.secondOf attributes)
      (failStructure (.repeated (outline old).render (outline new).render))

end FileReader

end ClassFile
