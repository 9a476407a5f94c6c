import ClassFile.Text

/-! Quoted text, for messages. A quoted text is always a valid string, whatever the text holds: the
control characters and the surrogates are written as escapes. Between double quotes only the double
quote itself is escaped, between single quotes only the single quote. -/

namespace ClassFile.Text

/-- The digits of a number in base sixteen, in lower case and without leading zeros. -/
def hexDigits (n : Nat) : String := String.ofList (Nat.toDigits 16 n)

/-- A number in base sixteen with the mark of the base, padded with zeros to a width that counts
the mark too. -/
def hexNumber (width n : Nat) : String :=
  let digits := hexDigits n
  "0x" ++ String.ofList (List.replicate (width - 2 - digits.length) '0') ++ digits

/-- The ASCII control characters. -/
def isControl (n : Nat) : Bool := n < 0x20 || n == 0x7f

/-- How a code point is written between the given quotes. -/
def escaped (quote : Char) (c : CodePoint) : String :=
  if c.value = 0 then "\\0"
  else if c = CodePoint.ofChar '\t' then "\\t"
  else if c = CodePoint.ofChar '\r' then "\\r"
  else if c = CodePoint.ofChar '\n' then "\\n"
  else if c = CodePoint.ofChar '\\' then "\\\\"
  else if c = CodePoint.ofChar quote then "\\" ++ quote.toString
  else if isControl c.value || c.isSurrogate then "\\u\x7b" ++ hexDigits c.value ++ "\x7d"
  else (Char.ofNat c.value).toString

/-- A text between double quotes. -/
def quoted (t : Text) : String := "\"" ++ String.join (t.map (escaped '"')) ++ "\""

/-- A code point between single quotes. -/
def quotedPoint (c : CodePoint) : String := "'" ++ escaped '\'' c ++ "'"

/-- A string between double quotes. -/
def quotedString (s : String) : String := quoted (ofString s)

/-- The text itself if it is valid Unicode, and its quoted form otherwise. -/
def display (t : Text) : String := t.toString?.getD t.quoted

end ClassFile.Text
