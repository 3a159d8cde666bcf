import Lox.Text.Rune

/-! Settings documents are written in YAML. A document is a sequence of characters, read through a
cursor that knows its place; this module holds both, and the problems that a document can have. -/

namespace Lox.Document

/-! Places. -/

/-- A place in a document: how many characters come before it, on which line it is and how far into
the line. All three count from zero. -/
structure Mark where
  index : Nat
  line : Nat
  column : Nat
  deriving DecidableEq, Repr

namespace Mark

def start : Mark := ⟨0, 0, 0⟩

/-- The place after characters on the same line. -/
def along (m : Mark) (count : Nat) : Mark :=
  { m with index := m.index + count, column := m.column + count }

/-- The place after a line break of so many characters. -/
def below (m : Mark) (count : Nat) : Mark := ⟨m.index + count, m.line + 1, 0⟩

end Mark

/-! Characters. -/

def isBlank (c : Char) : Bool := c == ' ' || c == '\t'

/-- The line breaks. The two separators at the end are kept where the others become a newline. -/
def isBreak (c : Char) : Bool :=
  c == '\n' || c == '\r' || c == '\u0085' || c == '\u2028' || c == '\u2029'

def isBlankOrBreak (c : Char) : Bool := isBlank c || isBreak c

/-- The character that a line break stands for. -/
def breakValue (c : Char) : Char := if c == '\u2028' || c == '\u2029' then c else '\n'

/-- The characters of names. -/
def isNameChar (c : Char) : Bool := c.isAlphanum || c == '_' || c == '-'

/-- Whether a line break or the end of the document comes next. -/
def lineEndNext (cs : List Char) : Bool := (cs.head?.map isBreak).getD true

/-- Whether a blank, a line break or the end of the document comes next. -/
def blankNext (cs : List Char) : Bool := (cs.head?.map isBlankOrBreak).getD true

/-- The characters a document may hold. -/
def isAllowed (c : Char) : Bool :=
  let n := c.toNat
  n == 0x09 || n == 0x0A || n == 0x0D || (0x20 ≤ n && n ≤ 0x7E) || n == 0x85 ||
    (0xA0 ≤ n && n ≤ 0xD7FF) || (0xE000 ≤ n && n ≤ 0xFFFD) || 0x10000 ≤ n

/-! Cursors. -/

/-- The characters ahead, the place of the first of them, and a bound for their number. -/
structure Cursor where
  rest : List Char
  mark : Mark
  bound : Nat

namespace Cursor

/-- The start of a text. -/
def ofChars (cs : List Char) : Cursor := ⟨cs, .start, cs.length + 1⟩

/-- Goes over characters that hold no line break. -/
def skip (c : Cursor) (count : Nat) : Cursor :=
  { c with rest := c.rest.drop count, mark := c.mark.along count }

/-- The characters up to the first that fails the test, and the place after them. The test has to
fail at line breaks. -/
def span (c : Cursor) (p : Char → Bool) : List Char × Cursor :=
  let taken := c.rest.takeWhile p
  (taken, c.skip taken.length)

def skipWhile (c : Cursor) (p : Char → Bool) : Cursor := (c.span p).2

def skipBlanks (c : Cursor) : Cursor := c.skipWhile isBlank

/-- Goes on to the end of the line. -/
def toLineEnd (c : Cursor) : Cursor := c.skipWhile (!isBreak ·)

/-- What a line break here stands for, and the place after it. -/
def lineBreak? (c : Cursor) : Option (Char × Cursor) :=
  match c.rest with
  | '\r' :: '\n' :: rest => some ('\n', { c with rest := rest, mark := c.mark.below 2 })
  | first :: rest =>
    if isBreak first then
      some (breakValue first, { c with rest := rest, mark := c.mark.below 1 })
    else none
  | [] => none

/-- Goes over a line break, if there is one. -/
def skipBreak (c : Cursor) : Cursor := (c.lineBreak?.map (·.2)).getD c

def startsWith (c : Cursor) (first : Char) : Bool := c.rest.head? == some first

/-- Whether three of these characters start a line, as they do at the borders of a document. -/
def atMarker (c : Cursor) (mark : Char) : Bool :=
  c.mark.column == 0 && c.rest.take 3 == [mark, mark, mark] && blankNext (c.rest.drop 3)

/-- Whether a document starts or ends here. -/
def atBorder (c : Cursor) : Bool := c.atMarker '-' || c.atMarker '.'

end Cursor

/-! Problems. -/

/-- What can be wrong with the characters, the tokens or the structure of a document. -/
inductive Problem
  | leadingByte | trailingByte | missingBytes | overlongBytes | noCharacter | controlCharacter
  | strangeCharacter
  | missingColon | itemHere | keyHere | valueHere
  | tooDeep
  | borderInQuotes | endInQuotes | unknownEscape | badEscapeDigits | badEscapeCode
  | tabInIndentation | tabInBlock | zeroIndentation
  | missingLineEnd | missingBlank | missingBlankOrLineEnd
  | missingDirectiveName | badDirectiveName | unknownDirective
  | missingVersion | longVersion | missingVersionPoint
  | badAnchorName
  | missingTagMark | missingTagEnd | missingTagName | badTagEscape | badTagLead | badTagTrail
  | missingStart | missingContent | missingKey | missingItem | missingComma (closing : Char)
  | repeatedVersion | strangeVersion | repeatedHandle | unknownHandle
  deriving DecidableEq, Repr

def Problem.message : Problem → String
  | leadingByte => "invalid leading UTF-8 octet"
  | trailingByte => "invalid trailing UTF-8 octet"
  | missingBytes => "incomplete UTF-8 octet sequence"
  | overlongBytes => "invalid length of a UTF-8 sequence"
  | noCharacter => "invalid Unicode character"
  | controlCharacter => "control characters are not allowed"
  | strangeCharacter => "found character that cannot start any token"
  | missingColon => "could not find expected ':'"
  | itemHere => "block sequence entries are not allowed in this context"
  | keyHere => "mapping keys are not allowed in this context"
  | valueHere => "mapping values are not allowed in this context"
  | tooDeep => "exceeded max depth of 10000"
  | borderInQuotes => "found unexpected document indicator"
  | endInQuotes => "found unexpected end of stream"
  | unknownEscape => "found unknown escape character"
  | badEscapeDigits => "did not find expected hexdecimal number"
  | badEscapeCode => "found invalid Unicode character escape code"
  | tabInIndentation => "found a tab character that violates indentation"
  | tabInBlock => "found a tab character where an indentation space is expected"
  | zeroIndentation => "found an indentation indicator equal to 0"
  | missingLineEnd => "did not find expected comment or line break"
  | missingBlank => "did not find expected whitespace"
  | missingBlankOrLineEnd => "did not find expected whitespace or line break"
  | missingDirectiveName => "could not find expected directive name"
  | badDirectiveName => "found unexpected non-alphabetical character"
  | unknownDirective => "found unknown directive name"
  | missingVersion => "did not find expected version number"
  | longVersion => "found extremely long version number"
  | missingVersionPoint => "did not find expected digit or '.' character"
  | badAnchorName => "did not find expected alphabetic or numeric character"
  | missingTagMark => "did not find expected '!'"
  | missingTagEnd => "did not find the expected '>'"
  | missingTagName => "did not find expected tag URI"
  | badTagEscape => "did not find URI escaped octet"
  | badTagLead => "found an incorrect leading UTF-8 octet"
  | badTagTrail => "found an incorrect trailing UTF-8 octet"
  | missingStart => "did not find expected <document start>"
  | missingContent => "did not find expected node content"
  | missingKey => "did not find expected key"
  | missingItem => "did not find expected '-' indicator"
  | missingComma closing => "did not find expected ',' or '" ++ closing.toString ++ "'"
  | repeatedVersion => "found duplicate %YAML directive"
  | strangeVersion => "found incompatible YAML document"
  | repeatedHandle => "found duplicate %TAG directive"
  | unknownHandle => "found undefined tag handle"

/-- Why a document cannot be read. Problems with its text and with its structure have a context, the
place where the construct around them starts, and a place of their own. -/
inductive Trouble
  | encoding (problem : Problem)
  | text (problem : Problem) (context : Mark) (here : Cursor)
  | arrangement (problem : Problem) (context here : Mark)
  | unknownAnchor (name : String)

namespace Trouble

/-- The first of two lines that is not the first line of the document, which is never named. -/
def namedLine? (context here : Mark) : Option Nat := [context.line, here.line].find? (0 < ·)

/-- The line that a complaint names. For the structure of a document it is one line early. -/
def line? : Trouble → Option Nat
  | text _ context here => (namedLine? context here.mark).map (· + 1)
  | arrangement _ context here => namedLine? context here
  | encoding _ | unknownAnchor _ => none

def reason : Trouble → String
  | encoding p | text p _ _ | arrangement p _ _ => p.message
  | unknownAnchor name => "unknown anchor '" ++ name ++ "' referenced"

/-- Whether the problem was met at the end of the characters. -/
def atEnd : Trouble → Bool
  | text _ _ here => here.rest.isEmpty
  | _ => false

end Trouble

abbrev Result := Except Trouble

/-- A problem with the text at a cursor, inside a construct that starts at the context. -/
def Cursor.fail {α : Type} (c : Cursor) (p : Problem) (context : Mark) : Result α :=
  .error (.text p context c)

end Lox.Document
