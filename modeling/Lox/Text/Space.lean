import Lox.Text.Rune

/-! White space at the ends of a text. -/

namespace Lox.Text

/-- The code points of white space. -/
def spaces : List Nat :=
  [0x09, 0x0A, 0x0B, 0x0C, 0x0D, 0x20, 0x85, 0xA0, 0x1680, 0x2000, 0x2001, 0x2002, 0x2003, 0x2004,
    0x2005, 0x2006, 0x2007, 0x2008, 0x2009, 0x200A, 0x2028, 0x2029, 0x202F, 0x205F, 0x3000]

def spaceEncodings : List Text := spaces.map fun n => ofChar (Char.ofNat n)

/-- Drops the given encodings from the front of a text, at most `n` of them. -/
def dropAny (encodings : List Text) : Nat → Text → Text
  | 0, t => t
  | n + 1, t =>
    match encodings.find? fun e => e.isPrefixOf t with
    | some e => dropAny encodings n (t.drop e.length)
    | none => t

/-- A text without the white space at its two ends. -/
def trim (t : Text) : Text :=
  let left := dropAny spaceEncodings t.length t
  (dropAny (spaceEncodings.map List.reverse) left.length left.reverse).reverse

end Lox.Text
