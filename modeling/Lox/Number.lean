import Lox.Number.Decimal

/-! How numbers are written and read. A finite number is written with its shortest digits,
positionally from `10 ^ (-4)` up to but excluding `10 ^ 15` and with an exponent outside that
range. A number literal is read as the nearest double. -/

namespace Lox.Number

/-- The layout of a number: the scientific exponents that are written positionally. -/
structure Layout where
  leastPositional : Int
  firstExponential : Int

/-- Positional from `0.0001` to `999999999999999.9`. -/
def layout : Layout := ⟨-4, 15⟩

def zeros (n : Nat) : Text := List.replicate n '0'.toUInt8

def point : UInt8 := '.'.toUInt8

/-- Digits with the point after the first `k` of them, padded with zeros where digits are missing. -/
def positional (digits : Text) (k : Int) : Text :=
  match k with
  | .ofNat k =>
    if k = 0 then '0'.toUInt8 :: point :: digits
    else if digits.length ≤ k then digits ++ zeros (k - digits.length)
    else digits.take k ++ point :: digits.drop k
  | .negSucc k => '0'.toUInt8 :: point :: zeros (k + 1) ++ digits

/-- One digit before the point, then the exponent with its sign and at least two digits. -/
def exponential (digits : Text) (exponent : Int) : Text :=
  let mantissa := match digits with
    | [] => []
    | [d] => [d]
    | d :: rest => d :: point :: rest
  let sign := if exponent < 0 then '-'.toUInt8 else '+'.toUInt8
  let size := Text.ofNat exponent.natAbs
  mantissa ++ 'E'.toUInt8 :: sign :: zeros (2 - size.length) ++ size

/-- The text of a positive finite number. -/
def magnitudeText (x : Float) : Text :=
  let d := Decimal.shortest x
  let digits := Text.ofNat d.coefficient
  let exponent := d.exponent + digits.length - 1
  if exponent < layout.leastPositional ∨ layout.firstExponential ≤ exponent then
    exponential digits exponent
  else positional digits (exponent + 1)

/-- The sign bit, which zero has too. -/
def isNegative (x : Float) : Bool := Nat.pow 2 63 ≤ x.toBits.toNat

def isZero (x : Float) : Bool := x.toBits.toNat % Nat.pow 2 63 = 0

/-- The text of a number, as `print` shows it. -/
def text (x : Float) : Text :=
  if x.isNaN then Text.ofString "NaN"
  else
    let size :=
      if isZero x then ['0'.toUInt8]
      else if x.isInf then Text.ofString "Infinity"
      else magnitudeText (if isNegative x then -x else x)
    if isNegative x then '-'.toUInt8 :: size else size

/-- Reads digits with an optional fraction as the nearest double. -/
def ofLexeme (lexeme : Text) : Float :=
  let whole := lexeme.takeWhile Text.isDigit
  let fraction := (lexeme.dropWhile Text.isDigit).drop 1
  Decimal.toFloat ⟨Text.digitsToNat (whole ++ fraction), -(fraction.length : Int)⟩

/-- Numbers are the same if they are equal as doubles; all NaNs are the same number. -/
def same (x y : Float) : Bool := x = y || (isZero x && isZero y)

end Lox.Number
