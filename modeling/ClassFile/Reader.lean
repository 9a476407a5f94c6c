import ClassFile.Cursor

/-! Reading with a cursor. What a read does when the data ends too early is left to the kind of fault; the
cursor then stays where the failing part began. -/

namespace ClassFile

/-- Runs an action a number of times; `found` holds the results so far, the last one first. -/
def collectFrom {ε σ α : Type} (action : EStateM ε σ α) (found : List α) :
    Nat → EStateM ε σ (List α)
  | 0 => pure found.reverse
  | n + 1 => do
    let value ← action
    collectFrom action (value :: found) n

/-- Runs an action a number of times and collects the results. -/
def collect {ε σ α : Type} (n : Nat) (action : EStateM ε σ α) : EStateM ε σ (List α) :=
  collectFrom action [] n

/-- Runs an action a number of times on the result of the one before. -/
def iterate {ε σ α : Type} (action : α → EStateM ε σ α) (value : α) : Nat → EStateM ε σ α
  | 0 => pure value
  | n + 1 => do
    let next ← action value
    iterate action next n

/-- Faults that can tell that data ended too early. -/
class Truncatable (ε : Type) where
  /-- There are fewer bytes than wanted at an offset of the data. -/
  truncated (offset wanted : Nat) : ε

/-- Reading from a cursor. -/
abbrev Reader (ε : Type) := EStateM ε Cursor

namespace Reader

variable {ε : Type} [Truncatable ε]

/-- The next `n` bytes. -/
def bytes (n : Nat) : Reader ε (List UInt8) := fun cursor =>
  match cursor.next? n with
  | none => .error (Truncatable.truncated cursor.offset n) cursor
  | some (front, cursor) => .ok front cursor

/-- A cursor over the next `n` bytes. -/
def take (n : Nat) : Reader ε Cursor := fun cursor =>
  match cursor.take? n with
  | none => .error (Truncatable.truncated cursor.offset n) cursor
  | some (contents, cursor) => .ok contents cursor

/-- Reads over the next `n` bytes. -/
def skip (n : Nat) : Reader ε Unit := do
  let _ ← bytes n

/-- Reads over everything that is left. -/
def skipRest : Reader ε Unit := do
  skip (← get).remaining

/-- An unsigned byte. -/
def u8 : Reader ε UInt8 := do return UInt8.ofNat (bigEndian (← bytes 1))

/-- An unsigned word of two bytes. -/
def u16 : Reader ε UInt16 := do return UInt16.ofNat (bigEndian (← bytes 2))

/-- An unsigned word of four bytes. -/
def u32 : Reader ε UInt32 := do return UInt32.ofNat (bigEndian (← bytes 4))

/-- An unsigned word of eight bytes. -/
def u64 : Reader ε UInt64 := do return UInt64.ofNat (bigEndian (← bytes 8))

/-- A signed byte. -/
def i8 : Reader ε Int8 := do return (← u8).toInt8

/-- A signed word of two bytes. -/
def i16 : Reader ε Int16 := do return (← u16).toInt16

/-- A signed word of four bytes. -/
def i32 : Reader ε Int32 := do return (← u32).toInt32

/-- A signed word of eight bytes. -/
def i64 : Reader ε Int64 := do return (← u64).toInt64

/-- A list behind its length, which takes one byte. -/
def shortList {α : Type} (item : Reader ε α) : Reader ε (List α) := do
  collect (← u8).toNat item

/-- A list behind its length, which takes two bytes. -/
def list {α : Type} (item : Reader ε α) : Reader ε (List α) := do
  collect (← u16).toNat item

/-- Reads from another cursor, and leaves this one alone. -/
def runOn {α : Type} (contents : Cursor) (reader : Reader ε α) : Reader ε α := fun cursor =>
  match reader contents with
  | .ok value _ => .ok value cursor
  | .error error _ => .error error cursor

end Reader

end ClassFile
