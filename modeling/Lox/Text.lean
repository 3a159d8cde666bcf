/-! Texts are sequences of bytes. Sources, strings and names may hold bytes that are not valid
UTF-8, so nothing here decodes them; a `String` becomes a text through its UTF-8 encoding. -/

namespace Lox

/-- A text, byte by byte. -/
abbrev Text := List UInt8

namespace Text

/-- The UTF-8 bytes of a string. -/
def ofString (s : String) : Text := s.toUTF8.data.toList

/-- The decimal digits of a natural number, without leading zeros. -/
def ofNat (n : Nat) : Text := (Nat.toDigits 10 n).map Char.toUInt8

/-- The decimal digits of an integer, with a minus sign in front of a negative one. -/
def ofInt : Int → Text
  | .ofNat n => ofNat n
  | .negSucc n => '-'.toUInt8 :: ofNat (n + 1)

/-- The byte that ends a line. -/
def newline : UInt8 := '\n'.toUInt8

/-- The number of line ends in a text. -/
def newlines (t : Text) : Nat := t.count newline

/-- The texts of a list of lines, each followed by a line end. -/
def unlines (lines : List Text) : Text := (lines.map (· ++ [newline])).flatten

def isDigit (b : UInt8) : Bool := '0'.toUInt8 ≤ b && b ≤ '9'.toUInt8

/-- Letters are the ASCII letters and the underscore. -/
def isLetter (b : UInt8) : Bool :=
  ('a'.toUInt8 ≤ b && b ≤ 'z'.toUInt8) || ('A'.toUInt8 ≤ b && b ≤ 'Z'.toUInt8) || b == '_'.toUInt8

def isWordByte (b : UInt8) : Bool := isLetter b || isDigit b

/-- The number a run of digits writes; bytes that are not digits count by their distance from `0`. -/
def digitsToNat (t : Text) : Nat := t.foldl (fun n b => n * 10 + (b - '0'.toUInt8).toNat) 0

/-- A text between single quotes. -/
def quoted (t : Text) : Text := '\''.toUInt8 :: t ++ ['\''.toUInt8]

end Text
end Lox
