import Lox.Settings.Document

/-! The characters of a document. Its bytes are read as UTF-8 in portions, and a portion with a fault
gives no characters at all: the fault is met only by a reader who gets that far. -/

namespace Lox.Document

/-- The number of bytes in a portion. -/
def portion : Nat := 512

/-- How many bytes a character takes, by the first of them. -/
def byteCount? (lead : UInt8) : Option Nat :=
  if lead < 0x80 then some 1
  else if lead < 0xC0 then none
  else if lead < 0xE0 then some 2
  else if lead < 0xF0 then some 3
  else if lead < 0xF8 then some 4
  else none

def isTrailing (b : UInt8) : Bool := 0x80 ≤ b && b < 0xC0

/-- The code point that a first byte and the bytes after it write. -/
def codePoint (lead : UInt8) (trail : Text) : Nat :=
  let top := match trail.length with
    | 0 => lead.toNat
    | 1 => lead.toNat % 0x20
    | 2 => lead.toNat % 0x10
    | _ => lead.toNat % 0x08
  trail.foldl (fun n b => n * 64 + b.toNat % 64) top

/-- The least code point that needs so many bytes after the first. -/
def leastCodePoint : Nat → Nat
  | 0 => 0
  | 1 => 0x80
  | 2 => 0x800
  | _ => 0x10000

/-- The character at the front of a text and how many bytes it takes; none if bytes are missing. -/
def firstChar? : Text → Except Problem (Option (Char × Nat))
  | [] => .ok none
  | lead :: rest =>
    match byteCount? lead with
    | none => .error .leadingByte
    | some count =>
      let trail := rest.take (count - 1)
      let n := codePoint lead trail
      if trail.length + 1 < count then .ok none
      else if !trail.all isTrailing then .error .trailingByte
      else if n < leastCodePoint trail.length then .error .overlongBytes
      else if !n.isValidChar then .error .noCharacter
      else if !isAllowed (Char.ofNat n) then .error .controlCharacter
      else .ok (some (Char.ofNat n, count))

/-- The first characters of a text, at most `n` of them, and how many bytes they take. -/
def firstChars : Nat → Text → Except Problem (List Char × Nat)
  | 0, _ => .ok ([], 0)
  | n + 1, t => do
    match ← firstChar? t with
    | none => pure ([], 0)
    | some (c, count) =>
      let (cs, more) ← firstChars n (t.drop count)
      pure (c :: cs, count + more)

/-- The characters up to the first portion with a fault, and the fault. -/
structure Characters where
  readable : List Char
  fault : Option Problem

namespace Characters

/-- Reads at most `n` portions, the first of them of the given size. -/
def read : Nat → Nat → Text → Characters
  | 0, _, _ => ⟨[], none⟩
  | _, _, [] => ⟨[], none⟩
  | n + 1, size, t =>
    match firstChars size (t.take size) with
    | .error p => ⟨[], some p⟩
    | .ok ([], _) => ⟨[], some .missingBytes⟩
    | .ok (cs, count) =>
      let more := read n portion (t.drop count)
      ⟨cs ++ more.readable, more.fault⟩

/-- A byte order mark at the start is left out, though it belongs to the first portion. -/
def ofText : Text → Characters
  | 0xEF :: 0xBB :: 0xBF :: rest => read (rest.length + 1) (portion - 3) rest
  | t => read (t.length + 1) portion t

end Characters
end Lox.Document
