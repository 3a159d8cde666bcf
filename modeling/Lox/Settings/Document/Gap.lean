import Lox.Settings.Document

/-! Gaps between the words of a scalar. Blanks on one line are kept. A single line break becomes a
space, and of several line breaks all but the first are kept. -/

namespace Lox.Document

/-- A gap: blanks on one line, or line breaks with blanks around them, which do not count. The first
line break is missing if it was escaped. -/
inductive Gap
  | blanks (taken : List Char)
  | breaks (first : Option Char) (more : List Char)

namespace Gap

def none : Gap := blanks []

def hasBreak : Gap → Bool
  | blanks _ => false
  | breaks .. => true

/-- What a gap stands for. -/
def text : Gap → List Char
  | blanks taken => taken
  | breaks (some '\n') [] => [' ']
  | breaks (some '\n') more => more
  | breaks first more => first.toList ++ more

def addBreak (c : Char) : Gap → Gap
  | blanks _ => breaks (some c) []
  | breaks first more => breaks first (more ++ [c])

def addBlank (c : Char) : Gap → Gap
  | blanks taken => blanks (taken ++ [c])
  | breaks first more => breaks first more

/-- Goes on over blanks and line breaks, at most `n` of them. After a line break a tab must not stand
before the column `least`; the scalar starts at the context. -/
def extend (least : Nat) (context : Mark) : Nat → Gap → Cursor → Result (Gap × Cursor)
  | 0, gap, c => .ok (gap, c)
  | n + 1, gap, c =>
    match c.lineBreak? with
    | some (value, next) => extend least context n (gap.addBreak value) next
    | Option.none =>
      match c.rest.head?.filter isBlank with
      | Option.none => .ok (gap, c)
      | some blank =>
        if gap.hasBreak && blank == '\t' && c.mark.column < least then
          c.fail .tabInIndentation context
        else extend least context n (gap.addBlank blank) (c.skip 1)

/-- Takes all blanks and line breaks ahead. -/
def takeAll (least : Nat) (context : Mark) (gap : Gap) (c : Cursor) : Result (Gap × Cursor) :=
  extend least context c.bound gap c

end Gap
end Lox.Document
