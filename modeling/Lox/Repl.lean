import Lox.Session
import Lox.Text.Class
import Lox.Text.Rune
import Lox.Text.Space

/-! The prompt: lines are read and run one after the other in one session. Lines that are not blank
are kept in a history, which a file carries from one use of the prompt to the next. -/

namespace Lox

/-! Lines of input. -/

namespace Lines

/-- The most bytes that are read as one line. -/
def bufferSize : Nat := 4096

def carriageReturn : UInt8 := '\r'.toUInt8

/-- A line and whether it is whole. A line that does not fit the buffer is cut. -/
structure Piece where
  line : Text
  whole : Bool
  deriving DecidableEq

/-- A line without the carriage return before its end. -/
def chomp (line : Text) : Text := if line.getLast? = some carriageReturn then line.dropLast else line

/-- The first line of a text and what comes after it. A cut never leaves a line end behind its
carriage return. -/
def next (t : Text) : Piece × Text :=
  let window := t.take bufferSize
  let line := window.takeWhile (· ≠ Text.newline)
  if line.length < window.length then (⟨chomp line, true⟩, t.drop (line.length + 1))
  else if window.length < bufferSize then (⟨window, true⟩, [])
  else
    let cut := chomp window
    (⟨cut, false⟩, t.drop cut.length)

/-- All lines of a text, at most as many as a bound. -/
def upTo : Nat → Text → List Piece
  | 0, _ => []
  | n + 1, t =>
    if t.isEmpty then []
    else
      let (piece, rest) := next t
      piece :: upTo n rest

/-- All lines of a text. Every line takes at least a byte. -/
def ofText (t : Text) : List Piece := upTo t.length t

end Lines

/-! History. -/

/-- The lines entered, the oldest first. -/
abbrev History := List Text

namespace History

/-- The most lines that a history keeps. -/
def capacity : Nat := 1000

/-- Drops the oldest lines beyond the capacity. -/
def trim (h : History) : History := h.drop (h.length - capacity)

/-- Adds a line, unless it repeats the last one. -/
def add (h : History) (line : Text) : History :=
  if h.getLast? = some line then h else trim (h ++ [line])

/-- Whether a line of a file can be kept. -/
def accepts (p : Lines.Piece) : Bool := p.whole && (Rune.chars? p.line).isSome

/-- The history in a file, up to the first line that cannot be kept. -/
def ofText (t : Text) : History := trim (((Lines.ofText t).takeWhile accepts).map (·.line))

def text (h : History) : Text := Text.unlines h

end History

/-! The prompt itself. -/

structure Repl where
  session : Session
  history : History

namespace Repl

/-- A prompt with control characters cannot be shown, and nothing is read after it. -/
def canShow (prompt : Text) : Bool :=
  (Rune.ofText prompt).all fun
    | .char c => !CharClass.isControl c
    | .stray _ => true

/-- What comes of a line: the prompt goes on, or the run breaks off. -/
inductive Reply
  | next (repl : Repl) (stdout stderr : Text)
  | broken (breach : Option Breach) (stdout : Text)

/-- Runs a line; blank lines are passed over. -/
def enter (r : Repl) (clock : Nat → Float) (line : Text) : Reply :=
  if line.trim = [] then .next r [] []
  else
    match r.session.run clock Session.ampleBound line with
    | (session, .finished report) =>
      .next ⟨session, r.history.add line⟩ report.stdout report.stderr
    | (_, .breached breach output) => .broken (some breach) (Text.unlines output)
    | (_, .exhausted output) => .broken none (Text.unlines output)

/-- How the prompt ended. A run that broke off leaves no history. -/
structure Ending where
  stdout : Text
  stderr : Text
  history : Option History
  breach : Option Breach

/-- Puts output in front of what follows. -/
def Ending.after (e : Ending) (stdout stderr : Text) : Ending :=
  { e with stdout := stdout ++ e.stdout, stderr := stderr ++ e.stderr }

/-- Runs lines. The prompt is shown before each of them and before the end of the input. -/
def enterAll (clock : Nat → Float) (prompt : Text) (r : Repl) : List Text → Ending
  | [] => ⟨prompt, [], some r.history, none⟩
  | line :: rest =>
    match r.enter clock line with
    | .next r stdout stderr => (r.enterAll clock prompt rest).after (prompt ++ stdout) stderr
    | .broken breach stdout => ⟨prompt ++ stdout, [], none, breach⟩

/-- Runs the lines of an input. -/
def play (r : Repl) (clock : Nat → Float) (prompt input : Text) : Ending :=
  if canShow prompt then r.enterAll clock prompt ((Lines.ofText input).map (·.line))
  else ⟨[], [], some r.history, none⟩

end Repl
end Lox
