import Lox.Settings.Document.Node
import Lox.Settings.Document.Number
import Lox.Settings.Document.Timestamp
import Lox.Text.Base64

/-! What scalars mean. A scalar between quotes is text. Any other may be a word for nothing or for a
truth value, a number or a point in time; a tag says which of these it has to be. -/

namespace Lox.Document

/-- What a scalar means. A float is known by its whole part, if that is an integer of 64 bits. -/
inductive Meaning
  | null | bool | integer (n : Int) | beyond | float (whole : Option Int) | timestamp | merge | text
  | bytes (b : Text)

/-- Why a node cannot be taken for what it has to be, whatever else is wrong with the document. -/
inductive Failure
  | mistagged (found : String) (text : String) (tag : Text)
  | badBytes
  | mergeOfNoMap
  | selfReference (name : String)

def Failure.message : Failure → Text
  | mistagged found text tag =>
    Text.ofString ("cannot decode " ++ found ++ " \x60" ++ text ++ "\x60 as a ") ++ tag
  | badBytes => Text.ofString "!!binary value contains invalid base64 data"
  | mergeOfNoMap => Text.ofString "map merge requires map or sequence of maps as the value"
  | selfReference name => Text.ofString ("anchor '" ++ name ++ "' value contains itself")

namespace Meaning

def tag : Meaning → String
  | null => "!!null"
  | bool => "!!bool"
  | integer _ | beyond => "!!int"
  | float _ => "!!float"
  | timestamp => "!!timestamp"
  | merge => "!!merge"
  | text => "!!str"
  | bytes _ => "!!binary"

/-- The words for nothing. -/
def nullWords : List String := ["", "~", "null", "Null", "NULL"]

/-- The words for truth values. -/
def boolWords : List String := ["true", "True", "TRUE", "false", "False", "FALSE"]

/-- The key that takes over the entries of other mappings. -/
def mergeWord : String := "<<"

def ofNumber : Number → Meaning
  | .integer n => integer n
  | .beyond => beyond
  | .float whole => float whole
  | .none => text

/-- The meaning of a scalar by its text alone. -/
def ofText (dated : Bool) (s : String) : Meaning :=
  if nullWords.contains s then null
  else if boolWords.contains s then bool
  else if s == mergeWord then merge
  else if dated && isTimestamp s.toList then timestamp
  else ofNumber (number s)

/-- An integer as a float. -/
def floatOf (n : Int) : Meaning :=
  float (truncate? (n < 0) (Decimal.toFloat ⟨n.natAbs, 0⟩))

/-- The meaning of a scalar with a tag. Every scalar is text if its tag says so, and an integer can be
a float. -/
def ofTagged (tag : Text) (s : String) : Except Failure Meaning :=
  if tag = Text.ofString "!!str" then .ok text
  else if tag = Text.ofString "!!binary" then
    match Text.ofBase64? s.toList with
    | some b => .ok (bytes b)
    | none => .error .badBytes
  else
    let m := ofText (tag = Text.ofString "!!timestamp") s
    if tag = Text.ofString m.tag then .ok m
    else
      match m with
      | integer n =>
        if tag = Text.ofString "!!float" then .ok (floatOf n) else .error (.mistagged m.tag s tag)
      | _ => .error (.mistagged m.tag s tag)

def ofScalar (tag : Option Text) (plain : Bool) (s : String) : Except Failure Meaning :=
  match tag with
  | some tag => ofTagged tag s
  | none => .ok (if plain then ofText true s else text)

end Meaning

namespace Node

/-- Whether a node is the key for the entries of other mappings. -/
def isMerge : Node → Bool
  | scalar _ none plain text => plain && text == Meaning.mergeWord
  | scalar _ (some tag) _ text => tag == Text.ofString "!!merge" && text == Meaning.mergeWord
  | _ => false

end Node
end Lox.Document
