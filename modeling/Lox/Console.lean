import Lox.Settings
import Lox.Text.Rune

/-! The console: arguments written to standard output and standard error, one after the other or by
a format. -/

namespace Lox.Console

inductive Argument
  | text (t : Text)
  | int (n : Int)
  deriving DecidableEq

namespace Argument

def isText : Argument → Bool
  | text _ => true
  | int _ => false

def shown : Argument → Text
  | text t => t
  | int n => Text.ofInt n

/-- The name of the kind of an argument, as complaints show it. -/
def kind : Argument → String
  | text _ => "string"
  | int _ => "int"

/-- An argument with its kind. -/
def described (a : Argument) : Text := Text.ofString (a.kind ++ "=") ++ a.shown

end Argument

/-- Arguments with a space between any two. -/
def spaced (args : List Argument) : Text := [' '.toUInt8].intercalate (args.map (·.shown))

/-- Arguments with a space only between two of them that are no texts. -/
def compact : List Argument → Text
  | [] => []
  | [a] => a.shown
  | a :: b :: rest =>
    let gap := if a.isText || b.isText then [] else [' '.toUInt8]
    a.shown ++ gap ++ compact (b :: rest)

/-! Formats. -/

def percent : UInt8 := '%'.toUInt8

/-- Whether a verb of a format can show an argument. -/
def suits (verb : Char) : Argument → Bool
  | .text _ => verb == 's' || verb == 'v'
  | .int _ => verb == 'd' || verb == 'v'

/-- A complaint in the place of an argument. -/
def complaint (verb : Char) (reason : Text) : Text :=
  Text.ofString "%!" ++ Text.ofChar verb ++ Text.ofString "(" ++ reason ++ Text.ofString ")"

/-- A verb with its argument, and the arguments after it. -/
def verbText (verb : Char) : List Argument → Text × List Argument
  | args =>
    if verb == '%' then ([percent], args)
    else
      match args with
      | [] => (complaint verb (Text.ofString "MISSING"), [])
      | a :: rest => (if suits verb a then a.shown else complaint verb a.described, rest)

/-- The character that a verb is; a byte that belongs to none counts as the replacement character. -/
def verbOf : Rune → Char
  | .char c => c
  | .stray _ => Char.ofNat 0xFFFD

def runeText : Rune → Text
  | .char c => Text.ofChar c
  | .stray b => [b]

/-- The arguments that a format does not use. -/
def extra : List Argument → Text
  | [] => []
  | args =>
    Text.ofString "%!(EXTRA " ++
      (Text.ofString ", ").intercalate (args.map (·.described)) ++ Text.ofString ")"

def fill : List Rune → List Argument → Text
  | [], args => extra args
  | [.char '%'], args => Text.ofString "%!(NOVERB)" ++ extra args
  | .char '%' :: verb :: rest, args =>
    let (text, args) := verbText (verbOf verb) args
    text ++ fill rest args
  | r :: rest, args => runeText r ++ fill rest args

/-- A format with its arguments filled in. -/
def formatted (format : Text) (args : List Argument) : Text := fill (Rune.ofText format) args

/-! Writing. -/

inductive Stream
  | stdout
  | stderr
  deriving DecidableEq, Repr

/-- What is written to the two streams. -/
structure Output where
  stdout : Text := []
  stderr : Text := []
  deriving DecidableEq

def writeTo (stream : Stream) (text : Text) : Output :=
  match stream with
  | .stdout => { stdout := text }
  | .stderr => { stderr := text }

/-- Writes a line to standard output. -/
def printLine (args : List Argument) : Output := writeTo .stdout (Text.unlines [spaced args])

/-- Writes a line. On standard error, where the line is one diagnostic, texts stand close together. -/
def writeLine (stream : Stream) (args : List Argument) : Output :=
  let line := match stream with
    | .stdout => spaced args
    | .stderr => compact args
  writeTo stream (Text.unlines [line])

def writeFormatted (stream : Stream) (format : Text) (args : List Argument) : Output :=
  writeTo stream (formatted format args)

/-- Whether diagnostics are painted. Without a mode of its own this hangs on the terminal. -/
def colorEnabled (mode : Text) (terminal : Bool) : Bool :=
  match ColorMode.ofName? mode with
  | some .always => true
  | some .never => false
  | _ => terminal

end Lox.Console
