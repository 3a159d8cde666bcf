import Lox.Number

/-! Tokens: the words a program is written in. A token is a kind, the bytes it was read from and
the line on which those bytes end; the literal of a string or number token follows from its bytes. -/

namespace Lox

/-- The kinds of tokens, in the order of their codes. -/
inductive TokenKind
  | leftParen | rightParen | leftBrace | rightBrace | comma | dot | minus | plus | semicolon
  | slash | star
  | bang | bangEqual | equal | equalEqual | greater | greaterEqual | less | lessEqual
  | identifier | string | number
  | kwAnd | kwClass | kwElse | kwFalse | kwFun | kwFor | kwIf | kwNil | kwOr | kwPrint | kwReturn
  | kwSuper | kwThis | kwTrue | kwVar | kwWhile
  deriving DecidableEq, Repr

namespace TokenKind

/-- The code of a kind: its place in the order above, from zero. -/
def code (k : TokenKind) : Nat := k.ctorIdx

/-- The reserved words and their kinds. -/
def keywords : List (Text × TokenKind) :=
  [("and", kwAnd), ("class", kwClass), ("else", kwElse), ("false", kwFalse), ("fun", kwFun),
    ("for", kwFor), ("if", kwIf), ("nil", kwNil), ("or", kwOr), ("print", kwPrint),
    ("return", kwReturn), ("super", kwSuper), ("this", kwThis), ("true", kwTrue), ("var", kwVar),
    ("while", kwWhile)].map fun (word, kind) => (Text.ofString word, kind)

/-- A word is a keyword only as a whole; any other word is an identifier. -/
def ofWord (word : Text) : TokenKind := (keywords.lookup word).getD identifier

/-- The kind of an operator or a mark of one byte. -/
def ofByte? (b : UInt8) : Option TokenKind :=
  match Char.ofUInt8 b with
  | '(' => some leftParen
  | ')' => some rightParen
  | '{' => some leftBrace
  | '}' => some rightBrace
  | ',' => some comma
  | '.' => some dot
  | '-' => some minus
  | '+' => some plus
  | ';' => some semicolon
  | '/' => some slash
  | '*' => some star
  | '!' => some bang
  | '=' => some equal
  | '>' => some greater
  | '<' => some less
  | _ => none

/-- The kind of an operator that an equal sign completes. -/
def withEqual? : TokenKind → Option TokenKind
  | bang => some bangEqual
  | equal => some equalEqual
  | greater => some greaterEqual
  | less => some lessEqual
  | _ => none

end TokenKind

/-- The constants that can be written in a program. -/
inductive Literal
  | nil
  | bool (b : Bool)
  | number (x : Float)
  | string (s : Text)
  deriving DecidableEq

namespace Literal

/-- A literal as `print` shows it. -/
def text : Literal → Text
  | nil => Text.ofString "nil"
  | bool b => Text.ofString (if b then "true" else "false")
  | number x => Number.text x
  | string s => s

end Literal

structure Token where
  kind : TokenKind
  lexeme : Text
  line : Nat
  deriving DecidableEq

namespace Token

/-- The constant that a number or string token stands for. -/
def literal? (t : Token) : Option Literal :=
  match t.kind with
  | .number => some (.number (Number.ofLexeme t.lexeme))
  | .string => some (.string (t.lexeme.drop 1).dropLast)
  | _ => none

/-- One line about a token: code, bytes and literal. -/
def describe (code : Int) (lexeme : Text) (literal : Option Literal) : Text :=
  let shown := match literal with
    | none => Text.ofString "<nil>"
    | some l => l.text
  Text.ofInt code ++ Text.ofString " " ++ lexeme ++ Text.ofString " " ++ shown

def description (t : Token) : Text := describe t.kind.code t.lexeme t.literal?

/-- The code that stands for the end of the tokens. -/
def endCode : Int := -1

def endDescription : Text := describe endCode [] none

end Token
end Lox
