/-! Cursors over bytes. A cursor is a window of some data together with a place in it: `base`
is where the window starts in the data, `position` how much of the window was read, and `rest` what is
left of it. Numbers are written with their most significant byte first. -/

namespace ClassFile

/-- A place in a window of bytes. -/
structure Cursor where
  base : Nat
  position : Nat
  rest : List UInt8
  deriving DecidableEq, Repr

namespace Cursor

/-- A cursor at the start of some data. -/
def ofBytes (bytes : List UInt8) : Cursor := ⟨0, 0, bytes⟩

/-- The number of bytes left to read. -/
def remaining (c : Cursor) : Nat := c.rest.length

/-- Whether everything was read. -/
def isEmpty (c : Cursor) : Bool := c.rest.isEmpty

/-- The number of bytes in the window. -/
def size (c : Cursor) : Nat := c.position + c.rest.length

/-- The place of the next byte in all of the data. -/
def offset (c : Cursor) : Nat := c.base + c.position

/-- The first `n` items of a list and those behind them, if there are that many. `front` holds the items
before them, the last one first. -/
def splitFrom? {α : Type} (front : List α) : Nat → List α → Option (List α × List α)
  | 0, items => some (front.reverse, items)
  | _ + 1, [] => none
  | n + 1, item :: items => splitFrom? (item :: front) n items

/-- The first `n` items of a list and those behind them, if there are that many. -/
def split? {α : Type} (n : Nat) (items : List α) : Option (List α × List α) := splitFrom? [] n items

/-- The next `n` bytes and the cursor behind them, if there are that many. -/
def next? (n : Nat) (c : Cursor) : Option (List UInt8 × Cursor) :=
  match split? n c.rest with
  | none => none
  | some (front, rest) => some (front, ⟨c.base, c.position + n, rest⟩)

/-- A cursor of its own over the next `n` bytes and the cursor behind them. -/
def take? (n : Nat) (c : Cursor) : Option (Cursor × Cursor) :=
  match c.next? n with
  | none => none
  | some (front, after) => some (⟨c.offset, 0, front⟩, after)

end Cursor

/-- The number that bytes write, the most significant one first. -/
def bigEndian (bytes : List UInt8) : Nat := bytes.foldl (fun n b => n * 256 + b.toNat) 0

/-- The bytes that write a number, the most significant one first. -/
def bigEndianBytes (width n : Nat) : List UInt8 :=
  match width with
  | 0 => []
  | width + 1 => UInt8.ofNat (n / 256 ^ width) :: bigEndianBytes width n

end ClassFile
