import ClassFile.Text.Quoted

/-! The encoding of text in class files. Zero is written in two bytes, so that no byte of a written text
is zero, and a supplementary code point is written as a pair of surrogates of three bytes each. Bytes
that are ordinary UTF-8 are read as that; where both readings apply they agree. -/

namespace ClassFile.ModifiedUtf8

/-- Why bytes are not the encoding of a text. -/
inductive Defect where
  /-- A byte that never stands in the encoding. -/
  | forbidden (byte : UInt8) (position : Nat)
  /-- The bytes end within the character that starts at an index. -/
  | incomplete (start : Nat)
  /-- The bytes from an index on are no character; the count tells how many were seen to be wrong. -/
  | invalid (count start : Nat)
  deriving DecidableEq, Repr

/-- A defect in a number of bytes. -/
structure Fault where
  defect : Defect
  size : Nat
  deriving DecidableEq, Repr

def Fault.message (fault : Fault) : String :=
  let size := " in " ++ toString fault.size ++ " bytes"
  match fault.defect with
  | .forbidden byte position =>
    "forbidden byte " ++ Text.hexNumber 4 byte.toNat ++ " at " ++ toString position ++ size
  | .incomplete start => "incomplete utf-8 byte sequence from index " ++ toString start ++ size
  | .invalid count start =>
    "invalid utf-8 sequence of " ++ toString count ++ " bytes from index " ++ toString start ++ size

/-- Whether a byte continues a character. -/
def isContinuation (b : UInt8) : Bool := 0x80 ≤ b && b < 0xC0

/-- The code point of a number, which is one whenever it was put together from the bytes of a
character. -/
def point (n : Nat) : CodePoint := (CodePoint.ofNat? n).getD default

/-- The low bits of a continuation byte. -/
def low (b : UInt8) : Nat := b.toNat % 64

/-- The code point that two bytes write. -/
def two (a b : UInt8) : CodePoint := point (a.toNat % 32 * 64 + low b)

/-- The code point that three bytes write. -/
def three (a b c : UInt8) : CodePoint := point (a.toNat % 16 * 4096 + low b * 64 + low c)

/-- The supplementary code point of a pair of surrogates. -/
def paired (high low : CodePoint) : CodePoint :=
  point (0x10000 + (high.value - 0xD800) * 0x400 + (low.value - 0xDC00))

/-- Reads ordinary UTF-8 in which no character takes four bytes. It has neither surrogates nor
needlessly long forms. `read` holds what was read so far, the last code point first. -/
def ordinary? (read : Text) : List UInt8 → Option Text
  | [] => some read.reverse
  | a :: rest =>
    if a < 0x80 then ordinary? (point a.toNat :: read) rest
    else if 0xC2 ≤ a ∧ a < 0xE0 then
      match rest with
      | b :: rest => if isContinuation b then ordinary? (two a b :: read) rest else none
      | _ => none
    else if 0xE0 ≤ a ∧ a < 0xF0 then
      match rest with
      | b :: c :: rest =>
        if isContinuation b && isContinuation c && (a ≠ 0xE0 || 0xA0 ≤ b) && (a ≠ 0xED || b < 0xA0)
        then ordinary? (three a b c :: read) rest else none
      | _ => none
    else none

/-- Reads the first character, which starts at an index. The rest of the bytes is returned with it, and
is always shorter. -/
def character (start : Nat) (bytes : List UInt8) (a : UInt8) :
    Except Defect (CodePoint × { rest : List UInt8 // rest.length ≤ bytes.length }) :=
  if a < 0x80 then .ok (point a.toNat, ⟨bytes, Nat.le_refl _⟩)
  else
    match bytes with
    | [] => .error (.incomplete start)
    | b :: bytes =>
      if a = 0xC0 then
        if b = 0x80 then .ok (point 0, ⟨bytes, by simp⟩) else .error (.invalid 1 start)
      else if !isContinuation b then .error (.invalid 1 start)
      else if 0xC2 ≤ a ∧ a < 0xE0 then .ok (two a b, ⟨bytes, by simp⟩)
      else if 0xE0 ≤ a ∧ a < 0xF0 then
        match bytes with
        | [] => .error (.incomplete start)
        | c :: bytes =>
          if !isContinuation c then .error (.invalid 2 start)
          else if a = 0xE0 ∧ b < 0xA0 then .error (.invalid 1 start)
          else .ok (three a b c, ⟨bytes, by simp; omega⟩)
      else .error (.invalid 1 start)

/-- Joins a code point with the low surrogate that follows it in the bytes, if it is a high one. -/
def join (c : CodePoint) (bytes : List UInt8) :
    CodePoint × { rest : List UInt8 // rest.length ≤ bytes.length } :=
  if c.isHighSurrogate then
    match bytes with
    | a :: b :: d :: rest =>
      if a = 0xED && 0xB0 ≤ b && b < 0xC0 && isContinuation d then
        (paired c (three a b d), ⟨rest, by simp; omega⟩)
      else (c, ⟨a :: b :: d :: rest, Nat.le_refl _⟩)
    | short => (c, ⟨short, Nat.le_refl _⟩)
  else (c, ⟨bytes, Nat.le_refl _⟩)

/-- Reads the modified encoding from an index on. `read` holds what was read so far, the last code point
first, and `size` is the number of all bytes. -/
def modified (size : Nat) (read : Text) (bytes : List UInt8) : Except Defect Text :=
  match bytes with
  | [] => .ok read.reverse
  | a :: rest =>
    match character (size - (rest.length + 1)) rest a with
    | .error defect => .error defect
    | .ok (c, ⟨rest', hrest⟩) =>
      match join c rest' with
      | (joined, ⟨rest'', hjoin⟩) =>
        have : rest''.length < (a :: rest).length :=
          Nat.lt_succ_of_le (Nat.le_trans hjoin hrest)
        modified size (joined :: read) rest''
  termination_by bytes.length
  decreasing_by assumption

/-- Finds the first byte that never stands in the encoding, at or after a position. -/
def forbiddenFrom? (position : Nat) : List UInt8 → Option Defect
  | [] => none
  | b :: rest =>
    if b = 0 ∨ 0xF0 ≤ b then some (.forbidden b position) else forbiddenFrom? (position + 1) rest

/-- Reads bytes as text. -/
def decode (bytes : List UInt8) : Except Fault Text :=
  match forbiddenFrom? 0 bytes with
  | some defect => .error ⟨defect, bytes.length⟩
  | none =>
    match ordinary? [] bytes with
    | some text => .ok text
    | none => (modified bytes.length [] bytes).mapError (⟨·, bytes.length⟩)

/-- The bytes that write a number below `0x10000` that is not a supplementary code point. -/
def encodeUnit (n : Nat) : List UInt8 :=
  if n = 0 then [0xC0, 0x80]
  else if n < 0x80 then [UInt8.ofNat n]
  else if n < 0x800 then [UInt8.ofNat (0xC0 + n / 64), UInt8.ofNat (0x80 + n % 64)]
  else
    [UInt8.ofNat (0xE0 + n / 4096), UInt8.ofNat (0x80 + n / 64 % 64), UInt8.ofNat (0x80 + n % 64)]

/-- The bytes that write a code point. -/
def encodePoint (c : CodePoint) : List UInt8 :=
  if c.value < 0x10000 then encodeUnit c.value
  else
    encodeUnit (0xD800 + (c.value - 0x10000) / 0x400)
      ++ encodeUnit (0xDC00 + (c.value - 0x10000) % 0x400)

/-- The bytes that write a text. -/
def encode (t : Text) : List UInt8 := t.flatMap encodePoint

end ClassFile.ModifiedUtf8
