import Lox.StaticError

/-! Reading a program text as tokens. The text is cut from the left into chunks: blanks, comments,
token lexemes, stray bytes and, at the very end, a string that is never closed. Every byte belongs
to exactly one chunk. The tokens are the lexeme chunks; stray bytes and an unclosed string are
errors. A token or an error is on the line on which its chunk ends. -/

namespace Lox

/-- What a chunk of the program text is. -/
inductive ChunkKind
  | blank
  | comment
  | lexeme (kind : TokenKind)
  | stray
  | unclosedString
  deriving DecidableEq

structure Chunk where
  kind : ChunkKind
  text : Text
  deriving DecidableEq

namespace Chunk

def isBlank (b : UInt8) : Bool :=
  b == ' '.toUInt8 || b == '\r'.toUInt8 || b == '\t'.toUInt8 || b == Text.newline

def quote : UInt8 := '"'.toUInt8

/-- Cuts the leading bytes that satisfy `p` off a text. -/
def run (p : UInt8 → Bool) (t : Text) : Text × Text := (t.takeWhile p, t.dropWhile p)

/-- A comment goes up to the end of its line, which it does not include. -/
def comment (first : UInt8) (rest : Text) : Chunk × Text :=
  let (body, after) := run (· != Text.newline) rest
  (⟨.comment, first :: body⟩, after)

/-- A string goes up to the next quote; it may span lines. -/
def string (first : UInt8) (rest : Text) : Chunk × Text :=
  match run (· != quote) rest with
  | (body, close :: after) => (⟨.lexeme .string, first :: body ++ [close]⟩, after)
  | (body, []) => (⟨.unclosedString, first :: body⟩, [])

/-- The fraction of a number: a point belongs to the number only if a digit follows it. -/
def fraction (t : Text) : Text × Text :=
  match t with
  | mark :: d :: rest =>
    if mark = Number.point ∧ Text.isDigit d then
      let (digits, after) := run Text.isDigit rest
      (mark :: d :: digits, after)
    else ([], t)
  | _ => ([], t)

def number (first : UInt8) (rest : Text) : Chunk × Text :=
  let (whole, afterWhole) := run Text.isDigit rest
  let (part, after) := fraction afterWhole
  (⟨.lexeme .number, first :: whole ++ part⟩, after)

def word (first : UInt8) (rest : Text) : Chunk × Text :=
  let (tail, after) := run Text.isWordByte rest
  (⟨.lexeme (TokenKind.ofWord (first :: tail)), first :: tail⟩, after)

/-- An operator takes a following equal sign along if the two together are an operator. -/
def operator (kind : TokenKind) (first : UInt8) (rest : Text) : Chunk × Text :=
  match kind.withEqual?, rest with
  | some longer, next :: after =>
    if next = '='.toUInt8 then (⟨.lexeme longer, [first, next]⟩, after)
    else (⟨.lexeme kind, [first]⟩, rest)
  | _, _ => (⟨.lexeme kind, [first]⟩, rest)

/-- The chunk that a text starts with, and the text after it. -/
def next (first : UInt8) (rest : Text) : Chunk × Text :=
  if isBlank first then (⟨.blank, [first]⟩, rest)
  else if first = quote then string first rest
  else if Text.isDigit first then number first rest
  else if Text.isLetter first then word first rest
  else
    match TokenKind.ofByte? first with
    | none => (⟨.stray, [first]⟩, rest)
    | some kind =>
      if kind = .slash ∧ rest.head? = some first then comment first rest
      else operator kind first rest

private theorem length_dropWhile_le (p : UInt8 → Bool) (t : Text) :
    (t.dropWhile p).length ≤ t.length :=
  (List.dropWhile_suffix p).length_le

private theorem fraction_length_le (t : Text) : (fraction t).2.length ≤ t.length := by
  unfold fraction
  split
  · split
    · have := length_dropWhile_le Text.isDigit
      simp only [run, List.length_cons]
      exact Nat.le_succ_of_le (Nat.le_succ_of_le (this _))
    · simp
  · simp

/-- What follows a chunk is shorter than the text the chunk was cut from. -/
theorem next_length_le (first : UInt8) (rest : Text) : (next first rest).2.length ≤ rest.length := by
  have shorter := length_dropWhile_le
  unfold next
  split
  · simp
  split
  · unfold string
    split
    · rename_i body close after cut
      have : close :: after = rest.dropWhile (· != quote) := (congrArg Prod.snd cut).symm
      have := this ▸ shorter (· != quote) rest
      exact Nat.le_of_succ_le this
    · simp
  split
  · simp only [number, run]
    exact Nat.le_trans (fraction_length_le _) (shorter _ _)
  split
  · simpa [word, run] using shorter _ rest
  split
  · simp
  · split
    · simpa [comment, run] using shorter _ rest
    · unfold operator
      split
      · split <;> simp
      · simp

/-- The chunks of a text, in order. -/
def all (t : Text) : List Chunk :=
  match t with
  | [] => []
  | first :: rest => (next first rest).1 :: all (next first rest).2
termination_by t.length
decreasing_by
  have := next_length_le first rest
  simp only [List.length_cons]
  omega

end Chunk

/-- The result of reading a text as tokens; `endLine` is the line of the end of the text. -/
structure Scan where
  tokens : List Token
  errors : List StaticError
  endLine : Nat

namespace Scan

/-- Collects the tokens and errors of chunks of which the first starts on the given line. -/
def ofChunks (line : Nat) : List Chunk → Scan
  | [] => ⟨[], [], line⟩
  | chunk :: rest =>
    let line := line + Text.newlines chunk.text
    let scan := ofChunks line rest
    match chunk.kind with
    | .blank | .comment => scan
    | .lexeme kind => { scan with tokens := ⟨kind, chunk.text, line⟩ :: scan.tokens }
    | .stray => { scan with errors := ⟨.unexpectedCharacter, line, .nowhere⟩ :: scan.errors }
    | .unclosedString => { scan with errors := ⟨.unterminatedString, line, .nowhere⟩ :: scan.errors }

end Scan

/-- Reads a program text as tokens. -/
def scan (source : Text) : Scan := Scan.ofChunks 1 (Chunk.all source)

end Lox
