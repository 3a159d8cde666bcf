import Lox.Text

/-! Decimals and the doubles they read as. The shortest decimal of a double is the one with the
fewest digits that reads back as the same double and, of those, the nearest to it. -/

namespace Lox

/-- The decimal `coefficient * 10 ^ exponent`. -/
structure Decimal where
  coefficient : Nat
  exponent : Int
  deriving DecidableEq, Repr

namespace Decimal

/-- The nearest double, or infinity beyond the range of doubles. -/
def toFloat (d : Decimal) : Float :=
  match d.exponent with
  | .ofNat e => Float.ofScientific d.coefficient false e
  | .negSucc e => Float.ofScientific d.coefficient true (e + 1)

/-- A positive finite double as an exact quotient of natural numbers. -/
def quotient (x : Float) : Nat × Nat :=
  let bits := x.toBits.toNat % Nat.pow 2 63
  let fraction := bits % Nat.pow 2 52
  let field := bits / Nat.pow 2 52
  let (mantissa, exponent) :=
    if field = 0 then (fraction, (-1074 : Int)) else (fraction + Nat.pow 2 52, Int.ofNat field - 1075)
  match exponent with
  | .ofNat e => (mantissa * Nat.pow 2 e, 1)
  | .negSucc e => (mantissa, Nat.pow 2 (e + 1))

/-- The number of decimal places before the point: `10 ^ (k - 1) ≤ num / den < 10 ^ k`. A quotient
below one is scaled up first; every positive double is above `10 ^ (-340)`. -/
def magnitude (num den : Nat) : Int :=
  if den ≤ num then (Nat.toDigits 10 (num / den)).length
  else (Nat.toDigits 10 (num * Nat.pow 10 340 / den)).length - 340

/-- Removes trailing zeros of the coefficient, at most `n` of them. -/
def trim : Nat → Decimal → Decimal
  | 0, d => d
  | n + 1, d =>
    if d.coefficient ≠ 0 ∧ d.coefficient % 10 = 0 then trim n ⟨d.coefficient / 10, d.exponent + 1⟩
    else d

/-- The neighbours of `num / den` among the multiples of `10 ^ exponent`, the nearer one first; of
two equally near ones the one with the even coefficient comes first. -/
def neighbours (num den : Nat) (exponent : Int) : List Decimal :=
  let (n, d) := match exponent with
    | .ofNat e => (num, den * Nat.pow 10 e)
    | .negSucc e => (num * Nat.pow 10 (e + 1), den)
  let low : Decimal := ⟨n / d, exponent⟩
  let high : Decimal := ⟨n / d + 1, exponent⟩
  let twice := 2 * (n % d)
  if twice < d ∨ (twice = d ∧ low.coefficient % 2 = 0) then [low, high] else [high, low]

/-- The shortest decimal of a positive finite double. Seventeen digits always suffice, so the
search ends before the last resort, the nearest decimal of seventeen digits. -/
def shortest (x : Float) : Decimal :=
  let (num, den) := quotient x
  let k := magnitude num den
  let found := (List.range 17).findSome? fun i =>
    (neighbours num den (k - Int.ofNat (i + 1))).find? fun d => d.toFloat = x
  trim 17 (found.getD ((neighbours num den (k - 17)).headD ⟨0, 0⟩))

end Decimal
end Lox
