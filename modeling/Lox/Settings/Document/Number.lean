import Lox.Number.Decimal
import Lox.Text.Digit

/-! Scalars that are numbers. -/

namespace Lox.Document

/-- A natural number with an optional mark of its base; a leading zero marks base eight. -/
def natural? : List Char → Option Nat
  | ['0'] => some 0
  | '0' :: mark :: rest =>
    match mark with
    | 'x' | 'X' => digits? 16 rest
    | 'b' | 'B' => digits? 2 rest
    | 'o' | 'O' => digits? 8 rest
    | _ => digits? 8 (mark :: rest)
  | cs => digits? 10 cs

/-- Splits a sign off. -/
def signed : List Char → Bool × List Char
  | '-' :: rest => (true, rest)
  | '+' :: rest => (false, rest)
  | cs => (false, cs)

/-- The largest exponent that is told from larger ones; beyond it every float is zero or infinite. -/
def exponentBound : Nat := 100000

/-- An exponent, or nothing, which stands for zero. -/
def exponent? : List Char → Option Int
  | [] => some 0
  | mark :: rest =>
    if mark == 'e' || mark == 'E' then
      let (negative, digits) := signed rest
      (digits? 10 digits).map fun n =>
        let n : Int := min n exponentBound
        if negative then -n else n
    else none

/-- Digits with an optional fraction and exponent. -/
def decimal? (cs : List Char) : Option Decimal :=
  let whole := cs.takeWhile Char.isDigit
  let afterWhole := cs.dropWhile Char.isDigit
  let (fraction, after, pointed) := match afterWhole with
    | '.' :: rest => (rest.takeWhile Char.isDigit, rest.dropWhile Char.isDigit, true)
    | rest => ([], rest, false)
  if whole.isEmpty && (fraction.isEmpty || !pointed) then none
  else
    (exponent? after).bind fun e =>
      (digits? 10 (whole ++ fraction)).map fun n => ⟨n, e - fraction.length⟩

/-- One above the largest integer of 64 bits. -/
def intBound : Nat := Nat.pow 2 63

def leastInt : Int := -(intBound : Int)

/-- The whole part of a float as an integer of 64 bits. Floats below the range count as the least
integer, and so does the float just above it; larger ones have none. -/
def truncate? (negative : Bool) (size : Float) : Option Int :=
  if size.isInf then if negative then some leastInt else none
  else
    let (num, den) := Decimal.quotient size
    let whole : Int := num / den
    let n := if negative then -whole else whole
    if n < leastInt then some leastInt
    else if n < intBound then some n
    else if n = intBound then some leastInt
    else none

/-- The float of a decimal within the range of floats. -/
def float? (cs : List Char) : Option Float :=
  (decimal? cs).bind fun d => if d.toFloat.isInf then none else some d.toFloat

/-- What a scalar is as a number: an integer of 64 bits, one of 64 bits without a sign, a float with its
whole part if that is an integer of 64 bits, or no number. -/
inductive Number
  | integer (n : Int)
  | beyond
  | float (truncated : Option Int)
  | none

def isInfinity (text : String) : Bool := [".inf", ".Inf", ".INF"].contains text

def isNaN (text : String) : Bool := [".nan", ".NaN", ".NAN"].contains text

/-- A float with its sign. -/
def signedFloat (negative : Bool) (size : List Char) : Number :=
  match float? size with
  | some x => .float (truncate? negative x)
  | none => .none

/-- Digits of a base after an optional sign, within the range of integers. -/
def signedDigits (base : Nat) (cs : List Char) : Number :=
  let (negative, size) := signed cs
  match digits? base size with
  | some n =>
    if negative && n ≤ intBound then .integer (-(n : Int))
    else if !negative && n < intBound then .integer n
    else .none
  | none => .none

/-- A number whose sign may stand after the mark of its base. -/
def markedDigits : List Char → Number
  | '0' :: 'b' :: rest => signedDigits 2 rest
  | '-' :: '0' :: 'b' :: rest => signedDigits 2 ('-' :: rest)
  | '0' :: 'o' :: rest => signedDigits 8 rest
  | '-' :: '0' :: 'o' :: rest => signedDigits 8 ('-' :: rest)
  | _ => .none

/-- The first of two readings that gives a number. -/
def Number.orElse (first second : Number) : Number :=
  match first with
  | .none => second
  | found => found

/-- A number that starts with a sign or a digit. Underscores in it do not count. -/
def signedNumber (first : Char) (text : List Char) : Number :=
  let shown := text.filter (· ≠ '_')
  let (negative, size) := signed shown
  let other := (signedFloat negative size).orElse (markedDigits shown)
  match natural? size with
  | some n =>
    if negative && n ≤ intBound then .integer (-(n : Int))
    else if !negative && n < intBound then .integer n
    else if first.isDigit && n < 2 * intBound then .beyond
    else other
  | none => other

/-- Whether every underscore stands between two digits; `inside` says whether a digit comes before. -/
def underscoresFit (inside : Bool) : List Char → Bool
  | [] => true
  | '_' :: rest => inside && (rest.head?.map Char.isDigit).getD false && underscoresFit false rest
  | c :: rest => underscoresFit c.isDigit rest

/-- A float that starts with its point. -/
def pointedFloat (text : List Char) : Number :=
  if underscoresFit false text then signedFloat false (text.filter (· ≠ '_')) else .none

/-- Reads a scalar without quotes as a number. -/
def number (text : String) : Number :=
  match text.toList with
  | [] => .none
  | first :: rest =>
    if isInfinity text || isNaN text then .float none
    else if (first == '-' || first == '+') && isInfinity (String.ofList rest) then
      .float (if first == '-' then some leastInt else none)
    else if first == '.' then pointedFloat (first :: rest)
    else if first == '-' || first == '+' || first.isDigit then signedNumber first (first :: rest)
    else .none

end Lox.Document
