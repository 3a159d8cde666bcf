import Lox.Text.Digit

/-! Scalars that are points in time: a date, or a date and a time of day. -/

namespace Lox.Document

namespace Timestamp

/-- A number of one or two digits, within bounds. -/
def part? (low high : Nat) (cs : List Char) : Option (Nat × List Char) :=
  let digits := (cs.take 2).takeWhile Char.isDigit
  (digits? 10 digits).bind fun n =>
    if low ≤ n && n ≤ high then some (n, cs.drop digits.length) else none

def skip? (c : Char) : List Char → Option (List Char)
  | first :: rest => if first == c then some rest else none
  | [] => none

def isLeapYear (year : Nat) : Bool := year % 4 == 0 && (year % 100 != 0 || year % 400 == 0)

def daysIn (year month : Nat) : Nat :=
  if month = 2 then if isLeapYear year then 29 else 28
  else if [4, 6, 9, 11].contains month then 30 else 31

/-- What follows a date: four digits of a year, month and day. -/
def afterDate? (cs : List Char) : Option (List Char) := do
  let year := cs.takeWhile Char.isDigit
  let number ← digits? 10 year
  let cs ← skip? '-' (cs.drop year.length)
  let (month, cs) ← part? 1 12 cs
  let cs ← skip? '-' cs
  let (day, cs) ← part? 1 31 cs
  if year.length = 4 && day ≤ daysIn number month then some cs else none

/-- What follows a fraction of a second; there may be none. -/
def afterFraction (cs : List Char) : List Char :=
  match cs with
  | point :: rest =>
    let digits := rest.takeWhile Char.isDigit
    if (point == '.' || point == ',') && !digits.isEmpty then rest.drop digits.length else cs
  | [] => []

/-- What follows a time of day. -/
def afterTime? (cs : List Char) : Option (List Char) := do
  let (_, cs) ← part? 0 23 cs
  let cs ← skip? ':' cs
  let (_, cs) ← part? 0 59 cs
  let cs ← skip? ':' cs
  let (_, cs) ← part? 0 59 cs
  some (afterFraction cs)

def isTwoDigits (bound : Nat) (cs : List Char) : Bool :=
  cs.length == 2 && ((digits? 10 cs).map fun n => decide (n ≤ bound)).getD false

/-- A time zone: the letter for no distance, or hours and minutes with a sign. -/
def isZone : List Char → Bool
  | ['Z'] => true
  | [sign, h, i, ':', m, n] =>
    (sign == '+' || sign == '-') && isTwoDigits 24 [h, i] && isTwoDigits 60 [m, n]
  | _ => false

/-- Whether a time of day follows a date. With a letter between the two it needs a time zone, with
spaces it has none. -/
def isTime (cs : List Char) : Bool :=
  match cs with
  | mark :: rest =>
    if mark == 'T' || mark == 't' then ((afterTime? rest).map isZone).getD false
    else if mark == ' ' then
      ((afterTime? (rest.dropWhile (· == ' '))).map List.isEmpty).getD false
    else false
  | [] => false

end Timestamp

/-- Whether a scalar is a point in time. -/
def isTimestamp (cs : List Char) : Bool :=
  ((Timestamp.afterDate? cs).map fun rest => rest.isEmpty || Timestamp.isTime rest).getD false

end Lox.Document
