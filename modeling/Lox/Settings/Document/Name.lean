import Lox.Settings.Document.Token
import Lox.Text.Digit

/-! The tokens made of names: anchors and the references to them, tags, and directives. -/

namespace Lox.Document

/-- What may follow the name of an anchor. -/
def endsAnchor (cs : List Char) : Bool :=
  blankNext cs || (cs.head?.map (['?', ':', ',', ']', '\x7d', '%', '@', '\x60'].contains ·)).getD false

/-- The name of an anchor after its mark. -/
def anchorName (c : Cursor) : Result (String × Cursor) :=
  let (name, next) := (c.skip 1).span isNameChar
  if name.isEmpty || !endsAnchor next.rest then next.fail .badAnchorName c.mark
  else .ok (String.ofList name, next)

/-! Tags. -/

namespace Tag

def isNamePart (c : Char) : Bool :=
  isNameChar c ||
    [';', '/', '?', ':', '@', '&', '=', '+', '$', '.', '%', '!', '~', '*', '\'', '(', ')', ',',
      '[', ']'].contains c

/-- A byte written as a percent sign and two hexadecimal digits. -/
def escapedByte? (c : Cursor) : Option Nat :=
  match c.rest with
  | '%' :: high :: low :: _ => digits? 16 [high, low]
  | _ => none

/-- The further bytes of an escaped character. -/
def trailingBytes (context : Mark) : Nat → Cursor → Result (Text × Cursor)
  | 0, c => .ok ([], c)
  | n + 1, c => do
    match escapedByte? c with
    | none => c.fail .badTagEscape context
    | some b =>
      if b / 64 ≠ 2 then c.fail .badTagTrail context
      else
        let (more, c) ← trailingBytes context n (c.skip 3)
        pure (b.toUInt8 :: more, c)

/-- The number of bytes of an escaped character, by the first of them. -/
def escapedWidth? (b : Nat) : Option Nat :=
  if b < 0x80 then some 1
  else if b / 32 = 6 then some 2
  else if b / 16 = 14 then some 3
  else if b / 8 = 30 then some 4
  else none

/-- The bytes of an escaped character. -/
def escapedBytes (context : Mark) (c : Cursor) : Result (Text × Cursor) := do
  match escapedByte? c with
  | none => c.fail .badTagEscape context
  | some b =>
    match escapedWidth? b with
    | none => c.fail .badTagLead context
    | some width =>
      let (more, c) ← trailingBytes context (width - 1) (c.skip 3)
      pure (b.toUInt8 :: more, c)

/-- The parts of a name, at most `n` of them. -/
def nameParts (context : Mark) : Nat → Cursor → Result (Text × Cursor)
  | 0, c => .ok ([], c)
  | n + 1, c => do
    match c.rest.head?.filter isNamePart with
    | none => pure ([], c)
    | some part =>
      let (bytes, c) ←
        if part == '%' then escapedBytes context c else pure (Text.ofChar part, c.skip 1)
      let (more, c) ← nameParts context n c
      pure (bytes ++ more, c)

/-- A name, which may be empty only after a part that is read already. -/
def name (context : Mark) (before : Text) (c : Cursor) : Result (Text × Cursor) := do
  let (more, next) ← nameParts context c.bound c
  if before.isEmpty && more.isEmpty then next.fail .missingTagName context
  else pure (before.drop 1 ++ more, next)

/-- A handle: name characters between exclamation marks, of which the second may be missing in a
tag. -/
def handle (context : Mark) (inDirective : Bool) (c : Cursor) : Result (Text × Cursor) :=
  if !c.startsWith '!' then c.fail .missingTagMark context
  else
    let (inner, next) := (c.skip 1).span isNameChar
    let text := Text.ofString (String.ofList ('!' :: inner))
    if next.startsWith '!' then .ok (text ++ Text.ofString "!", next.skip 1)
    else if inDirective && !inner.isEmpty then next.fail .missingTagMark context
    else .ok (text, next)

/-- The parts of a tag in angle brackets. -/
def verbatim (context : Mark) (c : Cursor) : Result (Token.Tag × Cursor) := do
  let (suffix, c) ← name context [] (c.skip 2)
  if c.startsWith '>' then pure (⟨[], suffix⟩, c.skip 1) else c.fail .missingTagEnd context

/-- The parts of a tag that is not in angle brackets. -/
def short (context : Mark) (c : Cursor) : Result (Token.Tag × Cursor) := do
  let mark := Text.ofString "!"
  let (front, c) ← handle context false c
  if 1 < front.length && front.getLast? == mark.head? then
    let (suffix, c) ← name context [] c
    pure (⟨front, suffix⟩, c)
  else
    let (suffix, c) ← name context front c
    if suffix.isEmpty then pure (⟨[], front⟩, c) else pure (⟨mark, suffix⟩, c)

/-- The tag that starts here, and the place after it. -/
def read (c : Cursor) : Result (Token.Tag × Cursor) := do
  let (tag, next) ←
    if c.rest.take 2 == ['!', '<'] then verbatim c.mark c else short c.mark c
  if blankNext next.rest then pure (tag, next) else next.fail .missingBlankOrLineEnd c.mark

end Tag

/-! Directives. -/

namespace Directive

/-- A version number of at most two digits. -/
def number (context : Mark) (c : Cursor) : Result (Nat × Cursor) :=
  let (digits, next) := c.span Char.isDigit
  if 2 < digits.length then (c.skip 2).fail .longVersion context
  else
    match digits? 10 digits with
    | some n => .ok (n, next)
    | none => c.fail .missingVersion context

def version (context : Mark) (c : Cursor) : Result (Token.Kind × Cursor) := do
  let (major, c) ← number context c.skipBlanks
  if !c.startsWith '.' then c.fail .missingVersionPoint context
  else
    let (minor, c) ← number context (c.skip 1)
    pure (.version major minor, c)

def tagHandle (context : Mark) (c : Cursor) : Result (Token.Kind × Cursor) := do
  let (handle, c) ← Tag.handle context true c.skipBlanks
  if (c.rest.head?.filter isBlank).isNone then c.fail .missingBlank context
  else
    let (value, c) ← Tag.name context [] c.skipBlanks
    if blankNext c.rest then pure (.handle handle value, c)
    else c.fail .missingBlankOrLineEnd context

/-- The directive that starts here, and the place on the line below it. -/
def read (c : Cursor) : Result (Token.Kind × Cursor) := do
  let context := c.mark
  let (name, c) := (c.skip 1).span isNameChar
  if name.isEmpty then c.fail .missingDirectiveName context
  else if !blankNext c.rest then c.fail .badDirectiveName context
  else
    let (kind, c) ←
      if name == "YAML".toList then version context c
      else if name == "TAG".toList then tagHandle context c
      else c.fail .unknownDirective context
    let c := c.skipBlanks
    let c := if c.startsWith '#' then c.toLineEnd else c
    if lineEndNext c.rest then pure (kind, c.skipBreak) else c.fail .missingLineEnd context

end Directive
end Lox.Document
