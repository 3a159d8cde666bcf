import Lox.Text

/-! Bytes written in base 64: four characters to three bytes, with equals signs in place of the
characters that are missing at the end. -/

namespace Lox.Text

def base64Value? (c : Char) : Option Nat :=
  if 'A' ≤ c && c ≤ 'Z' then some (c.toNat - 'A'.toNat)
  else if 'a' ≤ c && c ≤ 'z' then some (c.toNat - 'a'.toNat + 26)
  else if '0' ≤ c && c ≤ '9' then some (c.toNat - '0'.toNat + 52)
  else if c == '+' then some 62
  else if c == '/' then some 63
  else none

/-- The three bytes of four values. -/
def base64Bytes (a b c d : Nat) : Text :=
  [(a * 4 + b / 16).toUInt8, (b % 16 * 16 + c / 4).toUInt8, (c % 4 * 64 + d).toUInt8]

/-- The bytes of the last group, which may be cut short. -/
def base64Last? : List Char → Option Text
  | [a, b, '=', '='] => do
    some ((base64Bytes (← base64Value? a) (← base64Value? b) 0 0).take 1)
  | [a, b, c, '='] => do
    some ((base64Bytes (← base64Value? a) (← base64Value? b) (← base64Value? c) 0).take 2)
  | [] => some []
  | _ => none

def base64Groups? : List Char → Option Text
  | a :: b :: c :: d :: rest =>
    if rest.isEmpty && d == '=' then base64Last? [a, b, c, d]
    else do
      let bytes := base64Bytes (← base64Value? a) (← base64Value? b) (← base64Value? c)
        (← base64Value? d)
      some (bytes ++ (← base64Groups? rest))
  | [] => some []
  | _ => none

/-- The bytes that characters in base 64 write. Line ends do not count. -/
def ofBase64? (cs : List Char) : Option Text :=
  base64Groups? (cs.filter fun c => c ≠ '\n' && c ≠ '\r')

end Lox.Text
