import Lox.Settings.Document.Block
import Lox.Settings.Document.Characters
import Lox.Settings.Document.Name
import Lox.Settings.Document.Plain
import Lox.Settings.Document.Quoted

/-! Reading tokens. Whether a scalar is a key of a mapping shows only at the colon after it, so tokens
wait in a queue, and a colon puts the tokens that announce a key in front of it. A key has to end on
its line, within a limit of characters. -/

namespace Lox.Document

/-! Space between tokens. -/

/-- How far ahead comments are looked for. -/
def commentReach : Nat := 512

/-- Whether a further comment comes after a line break, with only blanks and empty lines between. -/
def commentBelow : List Char → Bool
  | [] => false
  | first :: rest =>
    let isGap (c : Char) : Bool := isBlank c || c == '\n' || c == '\r'
    let gap := rest.takeWhile isGap
    (first == '\n' || first == '\r') && gap.length + 1 < commentReach &&
      (rest.drop gap.length).head? == some '#'

/-- Goes over blanks and line breaks to a number sign, at most `n` of them. -/
def toNumberSign : Nat → Cursor → Cursor
  | 0, c => c
  | n + 1, c =>
    match c.lineBreak? with
    | some (_, next) => toNumberSign n next
    | none => if c.startsWith '#' then c else toNumberSign n (c.skip 1)

/-- Goes over a comment to the end of its line, and over further comments below it, at most `n`
comments in all. The lines between two comments may be indented with tabs. -/
def overComments : Nat → Cursor → Cursor
  | 0, c => c
  | n + 1, c =>
    let c := c.toLineEnd
    if commentBelow c.rest then overComments n (toNumberSign c.bound c) else c

/-- Goes over a comment on the same line. -/
def overTrailingComment (c : Cursor) : Cursor :=
  let blanks := (c.rest.takeWhile isBlank).length
  let next := c.skip blanks
  if blanks < commentReach && next.startsWith '#' then next.toLineEnd else c

/-- Goes over blank space, comments and at most `n` line breaks. A tab may stand only where no key can
start. Outside of brackets a key can start on every new line. -/
def overSpace (inFlow : Bool) : Nat → Bool → Cursor → Bool × Cursor
  | 0, keyAllowed, c => (keyAllowed, c)
  | n + 1, keyAllowed, c =>
    let c := if c.mark.column = 0 && c.startsWith '\ufeff' then c.skip 1 else c
    let c := c.skipWhile fun x => x == ' ' || ((inFlow || !keyAllowed) && x == '\t')
    let c := if c.startsWith '#' then overComments c.bound c else c
    match c.lineBreak? with
    | some (_, next) => overSpace inFlow n (keyAllowed || !inFlow) next
    | none => (keyAllowed, c)

/-! The reader of tokens. -/

/-- What may turn out to be a key: the number of its first token among all tokens, and its place. One
that starts where the keys of an open mapping start has to be a key. -/
structure PendingKey where
  token : Nat
  mark : Mark
  required : Bool

/-- The reader: the text ahead and a fault after it, the tokens that wait and how many were taken
before them, the columns of the open blocks, the pending key, and those outside of each open bracket. -/
structure Tokens where
  cursor : Cursor
  fault : Option Problem
  waiting : List Token
  taken : Nat
  columns : List Nat
  pending : Option PendingKey
  outer : List (Option PendingKey)
  keyAllowed : Bool
  started : Bool

namespace Tokens

def ofText (text : Text) : Tokens :=
  let characters := Characters.ofText text
  { cursor := .ofChars characters.readable, fault := characters.fault, waiting := [], taken := 0,
    columns := [], pending := none, outer := [], keyAllowed := true, started := false }

/-- Whether a bracket is open. -/
def inFlow (ts : Tokens) : Bool := !ts.outer.isEmpty

/-- The least column inside of the innermost block. -/
def leastColumn (ts : Tokens) : Nat := (ts.columns.head?.map (· + 1)).getD 0

/-- Adds a token at the end. -/
def push (ts : Tokens) (kind : Token.Kind) (mark : Mark) : Tokens :=
  { ts with waiting := ts.waiting ++ [⟨kind, mark⟩] }

/-- Adds a token that starts here, and goes over its characters. -/
def pushMark (ts : Tokens) (kind : Token.Kind) (count : Nat) : Tokens :=
  { ts.push kind ts.cursor.mark with cursor := ts.cursor.skip count }

def fail {α : Type} (ts : Tokens) (p : Problem) (context : Mark) : Result α :=
  ts.cursor.fail p context

/-! Keys. -/

/-- The number of characters within which a key has to end. -/
def keyReach : Nat := 1024

/-- Whether a pending key can still turn out to be one. A required key must. -/
def isOpen (ts : Tokens) (key : PendingKey) : Result Bool :=
  let here := ts.cursor.mark
  if key.mark.line < here.line || key.mark.index + keyReach < here.index then
    if key.required then ts.fail .missingColon key.mark else .ok false
  else .ok true

/-- Gives the pending key up. -/
def dropKey (ts : Tokens) : Result Tokens :=
  match ts.pending with
  | some key =>
    if key.required then ts.fail .missingColon key.mark else .ok { ts with pending := none }
  | none => .ok ts

/-- Notes that a key may start here. -/
def noteKey (ts : Tokens) : Result Tokens := do
  if ts.keyAllowed then
    let mark := ts.cursor.mark
    let required := !ts.inFlow && ts.columns.head? == some mark.column
    let ts ← ts.dropKey
    pure { ts with pending := some ⟨ts.taken + ts.waiting.length, mark, required⟩ }
  else pure ts

/-! Blocks. -/

/-- How deep collections may be nested. -/
def depthLimit : Nat := 10000

/-- Opens a block in the column of the mark, unless one is open there. Its token goes before the token
of the given number, or at the end. -/
def openBlock (ts : Tokens) (c : Collection) (mark : Mark) (before : Option Nat) : Result Tokens :=
  if ts.inFlow || mark.column < ts.leastColumn then .ok ts
  else if depthLimit ≤ ts.columns.length then
    ts.fail .tooDeep ((ts.pending.map (·.mark)).getD .start)
  else
    let place := (before.map (· - ts.taken)).getD ts.waiting.length
    .ok { ts with
      columns := mark.column :: ts.columns
      waiting := ts.waiting.insertIdx place ⟨.block c, mark⟩ }

/-- Closes the blocks to the right of a column, or all blocks. -/
def closeBlocks (ts : Tokens) (column : Option Nat) (mark : Mark) : Tokens :=
  if ts.inFlow then ts
  else
    let isClosed (inner : Nat) : Bool := (column.map fun c => decide (c < inner)).getD true
    let closed := ts.columns.takeWhile isClosed
    { ts with
      columns := ts.columns.drop closed.length
      waiting := ts.waiting ++ closed.map fun _ => ⟨.blockEnd, mark⟩ }

/-- Closes all blocks before a border of the document; no key can be pending over it. -/
def atBorder (ts : Tokens) : Result Tokens := do
  let ts ← (ts.closeBlocks none ts.cursor.mark).dropKey
  pure { ts with keyAllowed := false }

/-! The tokens, by their first characters. -/

def finish (ts : Tokens) : Result Tokens := do
  let mark := ts.cursor.mark
  let mark := if mark.column = 0 then mark else mark.below 0
  let ts ← { ts with cursor := { ts.cursor with mark := mark } }.atBorder
  pure (ts.push .finish mark)

def directive (ts : Tokens) : Result Tokens := do
  let ts ← ts.atBorder
  let (kind, next) ← Directive.read ts.cursor
  pure { ts.push kind ts.cursor.mark with cursor := next }

def border (ts : Tokens) (kind : Token.Kind) : Result Tokens := do
  let ts ← ts.atBorder
  pure (ts.pushMark kind 3)

def openBracket (ts : Tokens) (c : Collection) : Result Tokens := do
  let ts ← ts.noteKey
  if depthLimit ≤ ts.outer.length then ts.fail .tooDeep ts.cursor.mark
  else
    pure ({ ts with pending := none, outer := ts.pending :: ts.outer, keyAllowed := true }.pushMark
      (.opening c) 1)

def closeBracket (ts : Tokens) (c : Collection) : Result Tokens := do
  let ts ← ts.dropKey
  let ts := match ts.outer with
    | pending :: outer => { ts with pending := pending, outer := outer }
    | [] => ts
  pure ({ ts with keyAllowed := false }.pushMark (.closing c) 1)

def comma (ts : Tokens) : Result Tokens := do
  let ts ← ts.dropKey
  pure ({ ts with keyAllowed := true }.pushMark .comma 1)

/-- Outside of brackets, makes sure that a block may start here and opens it. -/
def enterBlock (ts : Tokens) (c : Collection) (p : Problem) : Result Tokens :=
  if ts.inFlow then .ok ts
  else if !ts.keyAllowed then ts.fail p ts.cursor.mark
  else ts.openBlock c ts.cursor.mark none

def item (ts : Tokens) : Result Tokens := do
  let ts ← ts.enterBlock .sequence .itemHere
  let ts ← ts.dropKey
  pure ({ ts with keyAllowed := true }.pushMark .item 1)

def key (ts : Tokens) : Result Tokens := do
  let ts ← ts.enterBlock .mapping .keyHere
  let ts ← ts.dropKey
  pure ({ ts with keyAllowed := !ts.inFlow }.pushMark .key 1)

/-- The pending key, if a colon here makes it one. -/
def openKey? (ts : Tokens) : Result (Option PendingKey) := do
  match ts.pending with
  | none => pure none
  | some key => pure (if ← ts.isOpen key then some key else none)

/-- A colon: the token of the key goes before what was pending, and a new block before that. -/
def value (ts : Tokens) : Result Tokens := do
  match ← ts.openKey? with
  | some key =>
    let place := key.token - ts.taken
    let ts := { ts with waiting := ts.waiting.insertIdx place ⟨.key, key.mark⟩ }
    let ts ← ts.openBlock .mapping key.mark (some key.token)
    pure ({ ts with pending := none, keyAllowed := false }.pushMark .value 1)
  | none =>
    let ts ← ts.enterBlock .mapping .valueHere
    pure ({ ts with keyAllowed := !ts.inFlow }.pushMark .value 1)

/-- A token that can start a key and that no key can follow. -/
def keyPart (ts : Tokens) (read : Cursor → Result (Token.Kind × Cursor)) : Result Tokens := do
  let ts ← ts.noteKey
  let (kind, next) ← read ts.cursor
  pure { ts.push kind ts.cursor.mark with cursor := next, keyAllowed := false }

def named (ts : Tokens) (kind : String → Token.Kind) : Result Tokens :=
  ts.keyPart fun c => do
    let (name, next) ← anchorName c
    pure (kind name, next)

def tag (ts : Tokens) : Result Tokens :=
  ts.keyPart fun c => do
    let (t, next) ← Tag.read c
    pure (.tag t, next)

def quoted (ts : Tokens) (quote : Quote) : Result Tokens :=
  ts.keyPart fun c => do
    let (text, next) ← quotedScalar quote c
    pure (.scalar false (String.ofList text), next)

def block (ts : Tokens) (literal : Bool) : Result Tokens := do
  let ts ← ts.dropKey
  let (text, next) ← blockScalar literal ts.columns.head? ts.cursor
  pure { ts.push (.scalar false (String.ofList text)) ts.cursor.mark with
    cursor := next, keyAllowed := true }

/-- A scalar without quotes. If it was left over a line break, a key can start after it. -/
def plain (ts : Tokens) : Result Tokens := do
  let ts ← ts.noteKey
  let (s, next) ← plainScalar ts.inFlow ts.leastColumn ts.cursor
  pure { ts.push (.scalar true (String.ofList s.text)) ts.cursor.mark with
    cursor := next, keyAllowed := s.gap.hasBreak }

/-- The token that starts with the given character. -/
def startingWith (ts : Tokens) (first : Char) : Result Tokens :=
  let blankAfter := blankNext (ts.cursor.rest.drop 1)
  match first with
  | '[' => ts.openBracket .sequence
  | '\x7b' => ts.openBracket .mapping
  | ']' => ts.closeBracket .sequence
  | '\x7d' => ts.closeBracket .mapping
  | ',' => ts.comma
  | '*' => ts.named .reference
  | '&' => ts.named .anchor
  | '!' => ts.tag
  | '\'' => ts.quoted .single
  | '"' => ts.quoted .double
  | _ =>
    if first == '-' && blankAfter then ts.item
    else if first == '?' && (ts.inFlow || blankAfter) then ts.key
    else if first == ':' && (ts.inFlow || blankAfter) then ts.value
    else if first == '|' && !ts.inFlow then ts.block true
    else if first == '>' && !ts.inFlow then ts.block false
    else if startsPlain ts.inFlow ts.cursor.rest then ts.plain
    else ts.fail .strangeCharacter ts.cursor.mark

/-- Goes over a comment after the last token, which starts on the given line, unless the token is an
item mark or was left over a line break. -/
def overComment (ts : Tokens) (line : Nat) : Tokens :=
  let afterItem := (ts.waiting.getLast?.map fun t => decide (t.kind = .item)).getD false
  if afterItem || (ts.keyAllowed && line < ts.cursor.mark.line) then ts
  else { ts with cursor := overTrailingComment ts.cursor }

/-- Reads the next token. -/
def readNext (ts : Tokens) : Result Tokens := do
  if !ts.started then pure { ts.push .start ts.cursor.mark with started := true }
  else
    let before := ts.cursor.mark
    let (keyAllowed, c) :=
      overSpace ts.inFlow ts.cursor.bound ts.keyAllowed ts.cursor
    let ts := { ts with cursor := c, keyAllowed := keyAllowed }.closeBlocks (some c.mark.column) before
    match c.rest with
    | [] => ts.finish
    | first :: _ =>
      if c.mark.column = 0 && first == '%' then ts.directive
      else if c.atMarker '-' then ts.border .documentStart
      else if c.atMarker '.' then ts.border .documentEnd
      else
        let ts ← ts.startingWith first
        pure (ts.overComment c.mark.line)

/-- Reads the next token, or meets the fault after the text. -/
def fetch (ts : Tokens) : Result Tokens :=
  match ts.fault, ts.readNext with
  | none, result => result
  | some p, .ok next => if next.cursor.rest.isEmpty then .error (.encoding p) else .ok next
  | some p, .error t => .error (if t.atEnd then .encoding p else t)

/-- The pending key that starts with the first token in the queue. -/
def keyInFront? (ts : Tokens) : Option PendingKey :=
  (ts.pending :: ts.outer).findSome? (·.filter (·.token = ts.taken))

/-- Reads tokens, at most `n` of them, until three are waiting and it is known whether the first of
them belongs to a key. -/
def fill : Nat → Tokens → Result Tokens
  | 0, ts => .ok ts
  | n + 1, ts => do
    let wanted ←
      if ts.waiting.length ≤ 2 then pure true
      else
        match ts.keyInFront? with
        | some key => ts.isOpen key
        | none => pure false
    if wanted then fill n (← ts.fetch) else pure ts

/-- The next token. -/
def peek (ts : Tokens) : Result (Token × Tokens) := do
  let ts ← ts.fill (ts.cursor.bound + 3)
  pure (ts.waiting.headD ⟨.finish, ts.cursor.mark⟩, ts)

/-- Goes on to the token after the next one. -/
def advance (ts : Tokens) : Tokens :=
  { ts with waiting := ts.waiting.drop 1, taken := ts.taken + 1 }

end Tokens
end Lox.Document
