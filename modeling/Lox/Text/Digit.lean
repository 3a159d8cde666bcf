/-! Digits of a base up to sixteen. -/

namespace Lox

/-- The value of a digit, where letters of either case go on after nine. -/
def digitValue? (c : Char) : Option Nat :=
  if '0' ≤ c && c ≤ '9' then some (c.toNat - '0'.toNat)
  else if 'a' ≤ c && c ≤ 'f' then some (c.toNat - 'a'.toNat + 10)
  else if 'A' ≤ c && c ≤ 'F' then some (c.toNat - 'A'.toNat + 10)
  else none

/-- The number that digits of a base write; no digits write none. -/
def digits? (base : Nat) (cs : List Char) : Option Nat :=
  if cs.isEmpty then none
  else
    cs.foldl
      (fun n c => n.bind fun n => (digitValue? c).bind fun d =>
        if d < base then some (n * base + d) else none)
      (some 0)

end Lox
