import Lox.Text.Class
import Lox.Text.Rune

/-! Texts between double quotes, with escapes for what cannot be shown. -/

namespace Lox.Text

def hexDigits (width n : Nat) : String :=
  let digits := Nat.toDigits 16 n
  String.ofList (List.replicate (width - digits.length) '0' ++ digits)

/-- A character inside quotes. -/
def escapeChar (c : Char) : String :=
  match c with
  | '"' => "\\\""
  | '\\' => "\\\\"
  | _ =>
    if CharClass.mem CharClass.printable c then String.singleton c
    else
      match c.toNat with
      | 0x07 => "\\a"
      | 0x08 => "\\b"
      | 0x0C => "\\f"
      | 0x0A => "\\n"
      | 0x0D => "\\r"
      | 0x09 => "\\t"
      | 0x0B => "\\v"
      | n =>
        if n < 0x20 || n == 0x7F then "\\x" ++ hexDigits 2 n
        else if n < 0x10000 then "\\u" ++ hexDigits 4 n
        else "\\U" ++ hexDigits 8 n

/-- A text between double quotes; bytes that belong to no character are written in hexadecimal. -/
def escaped (t : Text) : Text :=
  let body := (Rune.ofText t).map fun
    | .char c => escapeChar c
    | .stray b => "\\x" ++ hexDigits 2 b.toNat
  ofString ("\"" ++ String.join body ++ "\"")

end Lox.Text
