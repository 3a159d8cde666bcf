import Lox.Settings.Document.Gap

/-! Scalars without quotes. They go on over several lines as long as these are indented, and end where
a comment, an indicator or a border of the document starts. -/

namespace Lox.Document

/-- The characters that divide collections in brackets. -/
def isFlowIndicator (c : Char) : Bool := [',', '?', '[', ']', '\x7b', '\x7d'].contains c

/-- The characters that start something other than a scalar without quotes. -/
def isIndicator (c : Char) : Bool :=
  isFlowIndicator c || ['-', ':', '#', '&', '*', '!', '|', '>', '\'', '"', '%', '@', '\x60'].contains c

/-- Whether a scalar without quotes starts here. -/
def startsPlain (inFlow : Bool) : List Char → Bool
  | [] => false
  | c :: rest =>
    (!isBlankOrBreak c && !isIndicator c) ||
      (c == '-' && !(rest.head?.map isBlank).getD false) ||
      (!inFlow && (c == '?' || c == ':') && !blankNext rest)

/-- The next word of a scalar without quotes. -/
def plainWord (inFlow : Bool) : List Char → List Char
  | [] => []
  | c :: rest =>
    if isBlankOrBreak c || (c == ':' && blankNext rest) || (inFlow && isFlowIndicator c) then []
    else c :: plainWord inFlow rest

/-- A scalar without quotes as far as it is read: its text from the end, and the gap after it, which
belongs to the scalar only if a word follows. -/
structure PlainScalar where
  reversed : List Char
  gap : Gap

namespace PlainScalar

def addWord (s : PlainScalar) (word : List Char) : PlainScalar :=
  if word.isEmpty then s else ⟨word.reverse ++ s.gap.text.reverse ++ s.reversed, .none⟩

def text (s : PlainScalar) : List Char := s.reversed.reverse

/-- Reads at most `n` words. Outside of brackets a line that starts before the column `least` is not
part of the scalar. -/
def read (inFlow : Bool) (least : Nat) (context : Mark) :
    Nat → PlainScalar → Cursor → Result (PlainScalar × Cursor)
  | 0, s, c => .ok (s, c)
  | n + 1, s, c => do
    if c.atBorder || c.startsWith '#' then pure (s, c)
    else
      let word := plainWord inFlow c.rest
      let s := s.addWord word
      let c := c.skip word.length
      if c.rest.isEmpty || !blankNext c.rest then pure (s, c)
      else
        let (gap, c) ← Gap.takeAll least context s.gap c
        if !inFlow && c.mark.column < least then pure ({ s with gap := gap }, c)
        else read inFlow least context n { s with gap := gap } c

end PlainScalar

/-- The scalar without quotes that starts here, and the place after it and its gap. -/
def plainScalar (inFlow : Bool) (least : Nat) (c : Cursor) : Result (PlainScalar × Cursor) :=
  PlainScalar.read inFlow least c.mark c.bound ⟨[], .none⟩ c

end Lox.Document
