import Lox.Settings.Document.Gap
import Lox.Text.Digit

/-! Scalars between quotes. Between single quotes only the quote itself is special, and it is written
twice; between double quotes a backslash starts an escape. -/

namespace Lox.Document

inductive Quote
  | single | double
  deriving DecidableEq

def Quote.char : Quote → Char
  | single => '\''
  | double => '"'

/-- The characters that a backslash and one character write. -/
def simpleEscapes : List (Char × Char) :=
  [('0', '\x00'), ('a', '\x07'), ('b', '\x08'), ('t', '\t'), ('\t', '\t'), ('n', '\n'),
    ('v', '\x0b'), ('f', '\x0c'), ('r', '\r'), ('e', '\x1b'), (' ', ' '), ('"', '"'),
    ('\'', '\''), ('\\', '\\'), ('N', '\u0085'), ('_', '\u00a0'), ('L', '\u2028'),
    ('P', '\u2029')]

/-- The number of hexadecimal digits after the escapes that give a code point. -/
def escapeDigits : List (Char × Nat) := [('x', 2), ('u', 4), ('U', 8)]

/-- The character of an escape, and the place after it. The cursor is at the backslash. -/
def escape (context : Mark) (c : Cursor) : Result (Char × Cursor) :=
  let name := (c.rest.drop 1).head?
  match name.bind (List.lookup · simpleEscapes), name.bind (List.lookup · escapeDigits) with
  | some value, _ => .ok (value, c.skip 2)
  | none, none => c.fail .unknownEscape context
  | none, some count =>
    let c := c.skip 2
    match digits? 16 (c.rest.take count) with
    | none => c.fail .badEscapeDigits context
    | some n =>
      if (c.rest.take count).length < count then c.fail .badEscapeDigits context
      else if n.isValidChar then .ok (Char.ofNat n, c.skip count)
      else c.fail .badEscapeCode context

/-- The next word between quotes, of at most `n` characters, with the place after it and the gap that
starts there. An escaped line break ends the word. -/
def quotedWord (quote : Quote) (context : Mark) : Nat → Cursor → Result (List Char × Gap × Cursor)
  | 0, c => .ok ([], .none, c)
  | n + 1, c => do
    match c.rest with
    | [] => pure ([], .none, c)
    | first :: rest =>
      if isBlankOrBreak first then pure ([], .none, c)
      else if first == quote.char then
        if quote = .single && rest.head? == some quote.char then
          let (word, gap, c) ← quotedWord quote context n (c.skip 2)
          pure (first :: word, gap, c)
        else pure ([], .none, c)
      else if quote = .double && first == '\\' then
        if (rest.head?.map isBreak).getD false then
          pure ([], .breaks none [], (c.skip 1).skipBreak)
        else
          let (value, c) ← escape context c
          let (word, gap, c) ← quotedWord quote context n c
          pure (value :: word, gap, c)
      else
        let (word, gap, c) ← quotedWord quote context n (c.skip 1)
        pure (first :: word, gap, c)

/-- Reads at most `n` words. -/
def quotedText (quote : Quote) (context : Mark) : Nat → Cursor → Result (List Char × Cursor)
  | 0, c => .ok ([], c)
  | n + 1, c => do
    if c.atBorder then c.fail .borderInQuotes context
    else if c.rest.isEmpty then c.fail .endInQuotes context
    else
      let (word, gap, c) ← quotedWord quote context c.bound c
      if c.startsWith quote.char then pure (word, c.skip 1)
      else
        let (gap, c) ← gap.takeAll 0 context c
        let (more, c) ← quotedText quote context n c
        pure (word ++ gap.text ++ more, c)

/-- The scalar between quotes that starts here, and the place after it. -/
def quotedScalar (quote : Quote) (c : Cursor) : Result (List Char × Cursor) :=
  quotedText quote c.mark c.bound (c.skip 1)

end Lox.Document
