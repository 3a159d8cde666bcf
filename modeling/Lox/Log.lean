import Lox.Text.Case

/-! The log of a run: entries with a level, a message and the fields that belong to them. -/

namespace Lox

/-- Log levels, from the fewest entries to the most. -/
inductive LogLevel
  | panic | fatal | error | warning | info | debug | trace
  deriving DecidableEq, Repr

namespace LogLevel

def rank : LogLevel → Nat
  | panic => 0
  | fatal => 1
  | error => 2
  | warning => 3
  | info => 4
  | debug => 5
  | trace => 6

def name : LogLevel → String
  | panic => "panic"
  | fatal => "fatal"
  | error => "error"
  | warning => "warning"
  | info => "info"
  | debug => "debug"
  | trace => "trace"

/-- A level by its name, in any case. -/
def ofName? (text : Text) : Option LogLevel :=
  let text := text.lowercase
  if text = Text.ofString "warn" then some warning
  else [panic, fatal, error, warning, info, debug, trace].find? fun level =>
    text = Text.ofString level.name

/-- Whether a log at this level shows entries of another level. -/
def shows (level entry : LogLevel) : Bool := entry.rank ≤ level.rank

end LogLevel

/-- The phases of a run. -/
inductive Phase
  | scan | parse | resolve | interpret
  deriving DecidableEq, Repr

def Phase.name : Phase → String
  | scan => "scan"
  | parse => "parse"
  | resolve => "resolve"
  | interpret => "interpret"

structure LogEntry where
  level : LogLevel
  message : Text
  phase : Option Phase := none
  tokens : Option Nat := none
  statements : Option Nat := none
  line : Option Nat := none
  deriving DecidableEq

end Lox
