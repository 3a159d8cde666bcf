import Lox.Text

/-! Texts as UTF-8: the characters of a text, and the bytes that belong to no character. -/

namespace Lox

/-- The UTF-8 bytes of a character. -/
def Text.ofChar (c : Char) : Text := Text.ofString (String.singleton c)

/-- A unit of a text: a character, or a byte that belongs to none. -/
inductive Rune
  | char (c : Char)
  | stray (b : UInt8)
  deriving DecidableEq

namespace Rune

/-- The character encoded by exactly these bytes. -/
def charOf? (t : Text) : Option Char :=
  match (String.fromUTF8? ⟨t.toArray⟩).map String.toList with
  | some [c] => some c
  | _ => none

/-- The character that a text starts with, and the number of its bytes. -/
def first? (t : Text) : Option (Char × Nat) :=
  [1, 2, 3, 4].findSome? fun width => (charOf? (t.take width)).map fun c => (c, width)

/-- The units of a text, at most `n` of them. -/
def units : Nat → Text → List Rune
  | 0, _ => []
  | _, [] => []
  | n + 1, b :: rest =>
    match first? (b :: rest) with
    | some (c, width) => char c :: units n ((b :: rest).drop width)
    | none => stray b :: units n rest

def ofText (t : Text) : List Rune := units t.length t

/-- The characters of a text that is valid UTF-8. -/
def chars? (t : Text) : Option (List Char) := (String.fromUTF8? ⟨t.toArray⟩).map String.toList

end Rune
end Lox
