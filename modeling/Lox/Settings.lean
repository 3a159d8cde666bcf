import Lox.Log
import Lox.Path
import Lox.Session
import Lox.Text.Escape

/-! Settings of the command line. A settings file names some of them over the defaults; a loaded file
has to make sense as a whole. -/

namespace Lox

structure Settings where
  logLevel : Text
  color : Text
  historyFile : Text
  prompt : Text
  maxCallDepth : Int
  deriving DecidableEq

/-- What the settings need to know of the host: the home directory and a place for the settings file
of its own, if they are set. -/
structure Host where
  home : Option Text
  settingsFile : Option Text

namespace Host

/-- An empty home directory counts as none. -/
def home? (host : Host) : Option Text := host.home.filter (· ≠ [])

/-- A name within the home directory, or as it is if there is none. -/
def atHome (host : Host) (name : Text) : Text :=
  match host.home? with
  | some home => Path.join [home, name]
  | none => name

/-- Where the settings file is. -/
def settingsPath (host : Host) : Text :=
  match host.settingsFile.filter (· ≠ []) with
  | some path => path
  | none => host.atHome (Text.ofString ".lox.yaml")

end Host

/-- The modes of painting diagnostics. -/
inductive ColorMode
  | auto | always | never
  deriving DecidableEq, Repr

namespace ColorMode

def name : ColorMode → String
  | auto => "auto"
  | always => "always"
  | never => "never"

def ofName? (text : Text) : Option ColorMode :=
  [auto, always, never].find? fun mode => text = Text.ofString mode.name

end ColorMode

namespace Settings

def default : Settings where
  logLevel := Text.ofString "warn"
  color := Text.ofString ColorMode.auto.name
  historyFile := Text.ofString ".lox_history"
  prompt := Text.ofString "> "
  maxCallDepth := Session.defaultLimit

/-! Validity. -/

/-- Why settings make no sense. -/
inductive Flaw
  | unknownColor (mode : Text)
  | negativeDepth (depth : Int)
  | unknownLevel (name : Text)
  deriving DecidableEq

def Flaw.message : Flaw → Text
  | unknownColor mode => Text.ofString "unknown color mode " ++ mode.escaped
  | negativeDepth depth => Text.ofString "max_call_depth must not be negative, got " ++ Text.ofInt depth
  | unknownLevel name => Text.ofString "not a valid logrus Level: " ++ name.escaped

def level? (s : Settings) : Option LogLevel := LogLevel.ofName? s.logLevel

/-- The level of the log; an unknown name stands for warnings. -/
def level (s : Settings) : LogLevel := s.level?.getD .warning

/-- The first flaw: of the colour, then of the depth, then of the level. -/
def flaw? (s : Settings) : Option Flaw :=
  if (ColorMode.ofName? s.color).isNone then some (.unknownColor s.color)
  else if s.maxCallDepth < 0 then some (.negativeDepth s.maxCallDepth)
  else if s.level?.isNone then some (.unknownLevel s.logLevel)
  else none

/-- Where the history of the prompt is kept: a relative file lies in the home directory. -/
def historyPath (s : Settings) (host : Host) : Text :=
  if s.historyFile = [] ∨ Path.isAbsolute s.historyFile then s.historyFile
  else host.atHome s.historyFile

end Settings
end Lox
