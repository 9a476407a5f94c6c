import ClassFile.Pool.Value

/-! Constant pools. The indices of a pool run from one to its count, exclusively; index zero never holds
an entry. A wide entry takes the index after its own too, where nothing else can stand. -/

namespace ClassFile

/-- What an index of a pool holds. -/
inductive Pool.Slot where
  | vacant
  | entry (entry : Pool.Entry)
  /-- The second index of a wide entry. -/
  | phantom
  deriving DecidableEq

/-- A constant pool: what each index holds, index zero included. -/
structure Pool where
  slots : Array Pool.Slot
  deriving DecidableEq

namespace Pool

/-- A pool with a count, in which nothing was filled in yet. -/
def empty (count : UInt16) : Pool := ⟨Array.replicate count.toNat .vacant⟩

def count (pool : Pool) : UInt16 := UInt16.ofNat pool.slots.size

/-- Checks that an index exists and is free. -/
def requireFree (index : UInt16) : EStateM Located Pool Unit := do
  if index = 0 then throw ⟨index, .zeroIndex⟩
  match (← get).slots[index.toNat]? with
  | none => throw ⟨index, .outOfRange (← get).count⟩
  | some .vacant => pure ()
  | some _ => throw ⟨index, .duplicateInsertion⟩

/-- Takes the index after that of a wide entry, where nothing else can stand from then on. -/
def claimSuccessor (index : UInt16) (tag : Tag) : EStateM Located Pool Unit := do
  match (← get).slots[index.toNat + 1]? with
  | none => throw ⟨index, .successorBeyond tag⟩
  | some .vacant => modify fun pool => ⟨pool.slots.setIfInBounds (index.toNat + 1) .phantom⟩
  | some _ => throw ⟨index, .successorOccupied tag⟩

/-- Puts an entry at an index that is free. A wide entry first takes the next index too. -/
def fill (index : UInt16) (entry : Entry) : EStateM Located Pool Unit := do
  requireFree index
  if entry.tag.isWide then claimSuccessor index entry.tag
  modify fun pool => ⟨pool.slots.setIfInBounds index.toNat (.entry entry)⟩

/-- The pool with an entry put at an index that is free. -/
def insert (pool : Pool) (index : UInt16) (entry : Entry) : Except Located Pool :=
  match fill index entry pool with
  | .ok () pool => .ok pool
  | .error located _ => .error located

def entry (pool : Pool) (index : UInt16) : Except Located Entry :=
  if index = 0 then .error ⟨index, .zeroIndex⟩
  else
    match pool.slots[index.toNat]? with
    | none => .error ⟨index, .outOfRange pool.count⟩
    | some .vacant => .error ⟨index, .vacant⟩
    | some .phantom => .error ⟨index, .phantomSlot⟩
    | some (.entry entry) => .ok entry

/-- The slots of a pool with their indices. -/
def indexed (pool : Pool) : List (UInt16 × Slot) :=
  pool.slots.toList.mapIdx fun index slot => (UInt16.ofNat index, slot)

/-- The entries of a pool with their indices. -/
def entries (pool : Pool) : List (UInt16 × Entry) :=
  pool.indexed.filterMap fun
    | (index, .entry entry) => some (index, entry)
    | _ => none

/-- Checks that every computed constant and call site refers to one of the bootstrap methods. -/
def checkBootstrap (pool : Pool) (methods : UInt16) : Except Located Unit :=
  let misplaced := pool.entries.findSome? fun
    | (index, .dynamic bootstrap _) | (index, .invokeDynamic bootstrap _) =>
      if methods ≤ bootstrap then some ⟨index, .bootstrapIndex bootstrap methods⟩ else none
    | _ => none
  match misplaced with
  | none => .ok ()
  | some located => .error located

end Pool

end ClassFile
