/-! Text as class files hold it: a sequence of code points in which surrogates may stand alone.
Names, descriptors and string constants are all of this form, so nothing here assumes that a text
is valid Unicode; `Text.toString?` says when it is. -/

namespace ClassFile

/-- A Unicode code point, surrogates included. -/
structure CodePoint where
  value : Nat
  isLt : value < 0x110000
  deriving DecidableEq, Repr

namespace CodePoint

instance : Inhabited CodePoint := ⟨⟨0, by decide⟩⟩

/-- The code point of a character. -/
def ofChar (c : Char) : CodePoint :=
  ⟨c.toNat, by
    have h := c.valid
    simp only [UInt32.isValidChar, Nat.isValidChar] at h
    show c.val.toNat < 0x110000
    omega⟩

instance : Coe Char CodePoint := ⟨ofChar⟩

/-- The code point with a number, if there is one. -/
def ofNat? (n : Nat) : Option CodePoint :=
  if h : n < 0x110000 then some ⟨n, h⟩ else none

/-- The first half of a surrogate pair. -/
def isHighSurrogate (c : CodePoint) : Bool := 0xD800 ≤ c.value && c.value < 0xDC00

/-- The second half of a surrogate pair. -/
def isLowSurrogate (c : CodePoint) : Bool := 0xDC00 ≤ c.value && c.value < 0xE000

/-- A surrogate stands for no character by itself. -/
def isSurrogate (c : CodePoint) : Bool := 0xD800 ≤ c.value && c.value < 0xE000

/-- The character of a code point that is no surrogate. -/
def toChar? (c : CodePoint) : Option Char :=
  if c.isSurrogate then none else some (Char.ofNat c.value)

end CodePoint

/-- A sequence of code points. -/
abbrev Text := List CodePoint

namespace Text

def ofString (s : String) : Text := s.toList.map CodePoint.ofChar

/-- The string with these code points, if none of them is a surrogate. -/
def toString? (t : Text) : Option String := (t.mapM CodePoint.toChar?).map String.ofList

/-- Whether a text begins with a character. -/
def startsWith (t : Text) (c : Char) : Bool :=
  match t with
  | [] => false
  | first :: _ => first = CodePoint.ofChar c

end Text

end ClassFile
