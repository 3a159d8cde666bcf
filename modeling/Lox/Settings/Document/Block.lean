import Lox.Settings.Document

/-! Block scalars: an indented block of lines after a header. In a literal block every line break
counts; in a folded one a line break between two lines of text becomes a space. -/

namespace Lox.Document

/-- What becomes of the line breaks at the end of a block. -/
inductive Chomping
  | strip | clip | keep
  deriving DecidableEq

/-- The header of a block: its chomping, and how far it is indented, if that is given. -/
structure BlockHeader where
  chomping : Chomping
  increment : Option Nat

namespace BlockHeader

def chomping? (c : Cursor) : Option Chomping :=
  if c.startsWith '+' then some .keep else if c.startsWith '-' then some .strip else none

/-- The digit for the indentation, if there is one. -/
def digit (context : Mark) (c : Cursor) : Result (Option Nat × Cursor) :=
  match c.rest.head?.filter Char.isDigit with
  | none => .ok (none, c)
  | some '0' => c.fail .zeroIndentation context
  | some d => .ok (some (d.toNat - '0'.toNat), c.skip 1)

/-- The two marks of a header, in either order. -/
def marks (context : Mark) (c : Cursor) : Result (BlockHeader × Cursor) := do
  match chomping? c with
  | some chomping =>
    let (step, c) ← digit context (c.skip 1)
    pure (⟨chomping, step⟩, c)
  | none =>
    let (step, c) ← digit context c
    match step, chomping? c with
    | some _, some chomping => pure (⟨chomping, step⟩, c.skip 1)
    | _, _ => pure (⟨.clip, step⟩, c)

/-- A header and the place below it. Only a comment may follow it on its line. -/
def read (context : Mark) (c : Cursor) : Result (BlockHeader × Cursor) := do
  let (header, c) ← marks context c
  let c := c.skipBlanks
  let c := if c.startsWith '#' then c.toLineEnd else c
  if lineEndNext c.rest then pure (header, c.skipBreak) else c.fail .missingLineEnd context

end BlockHeader

/-- Goes over empty lines and indentation, at most `n` lines: gives the deepest column it reached, the
line breaks and the place after them. Without a known indentation it goes over all spaces. -/
def emptyLines (context : Mark) (indent : Option Nat) :
    Nat → Nat → List Char → Cursor → Result (Nat × List Char × Cursor)
  | 0, deepest, breaks, c => .ok (deepest, breaks, c)
  | n + 1, deepest, breaks, c =>
    let spaces := (c.rest.takeWhile (· == ' ')).length
    let c := c.skip ((indent.map fun column => min spaces (column - c.mark.column)).getD spaces)
    let deepest := max deepest c.mark.column
    let inIndent := (indent.map fun column => decide (c.mark.column < column)).getD true
    if inIndent && c.startsWith '\t' then c.fail .tabInBlock context
    else
      match c.lineBreak? with
      | some (value, next) => emptyLines context indent n deepest (breaks ++ [value]) next
      | none => .ok (deepest, breaks, c)

/-- A block as far as it is read: its text from the end, the line break after its last line, and further line
breaks. -/
structure BlockText where
  reversed : List Char
  last : Option Char
  more : List Char
  afterBlank : Bool

namespace BlockText

/-- What stands between the text and the next line, which starts with a blank or not. -/
def between (literal : Bool) (b : BlockText) (blank : Bool) : List Char :=
  let folded := !literal && !b.afterBlank && !blank && b.last == some '\n'
  if !folded then b.last.toList ++ b.more else if b.more.isEmpty then [' '] else b.more

def chomped (b : BlockText) : Chomping → List Char
  | .strip => b.reversed.reverse
  | .clip => b.reversed.reverse ++ b.last.toList
  | .keep => b.reversed.reverse ++ b.last.toList ++ b.more

/-- Reads the lines with the given indentation, at most `n` of them. -/
def read (literal : Bool) (context : Mark) (indent : Nat) :
    Nat → BlockText → Cursor → Result (BlockText × Cursor)
  | 0, b, c => .ok (b, c)
  | n + 1, b, c => do
    if c.mark.column ≠ indent ∨ c.rest.isEmpty then pure (b, c)
    else
      let blank := (c.rest.head?.map isBlank).getD false
      let (line, c) := c.span (!isBreak ·)
      let (last, c) := match c.lineBreak? with
        | some (value, next) => (some value, next)
        | none => (none, c)
      let (_, more, c) ← emptyLines context (some indent) c.bound 0 [] c
      let reversed := (b.between literal blank ++ line).reverse ++ b.reversed
      read literal context indent n ⟨reversed, last, more, blank⟩ c

end BlockText

/-- The block scalar that starts here, and the place after it. `parent` is the column of the collection
around it. -/
def blockScalar (literal : Bool) (parent : Option Nat) (c : Cursor) :
    Result (List Char × Cursor) := do
  let context := c.mark
  let (header, c) ← BlockHeader.read context (c.skip 1)
  let given := header.increment.map fun step => parent.getD 0 + step
  let (deepest, breaks, c) ← emptyLines context given c.bound 0 [] c
  let indent := given.getD (max deepest (max ((parent.map (· + 1)).getD 0) 1))
  let (b, c) ← BlockText.read literal context indent c.bound ⟨[], none, breaks, false⟩ c
  pure (b.chomped header.chomping, c)

end Lox.Document
