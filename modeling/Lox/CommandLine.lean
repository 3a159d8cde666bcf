import Lox.Repl
import Lox.Settings.Load

/-! The command line. With the name of a script the script is run, and without arguments lines are
read from a prompt. -/

namespace Lox.CommandLine

/-- What a command leaves behind: an exit code, its output and the files. A breach ends a command at
once. -/
structure Outcome where
  exit : Nat
  stdout : Text := []
  stderr : Text := []
  files : Files
  breach : Option Breach := none

/-- Exit codes. -/
def exitUsage : Nat := 64

def exitStaticError : Nat := 65

def exitRuntimeError : Nat := 70

def exitBroken : Nat := 2

def exitCode : Verdict → Nat
  | .ok => 0
  | .staticError => exitStaticError
  | .runtimeError => exitRuntimeError

def usage : Text := Text.ofString "Usage: lox [script]\n"

def inaccessible (path : Text) : Text :=
  Text.ofString "Could not access file " ++ path.quoted ++ Text.ofString ", aborting.\n"

/-- The settings to use and the complaint about the settings file, if it cannot be used. -/
def settingsOrDefault (path : Text) (content : Except ReadError Text) : Settings × Text :=
  match Settings.load content with
  | .ok settings => (settings, [])
  | .error e => (Settings.default, Text.unlines [e.message path])

def newSession (settings : Settings) : Session :=
  Session.new (Session.limitOf settings.maxCallDepth)

/-- What running a script shows. -/
structure ScriptResult where
  exit : Nat
  stdout : Text
  stderr : Text := []
  breach : Option Breach := none

/-- Runs the text of a script. -/
def runScript (settings : Settings) (clock : Nat → Float) (source : Text) : ScriptResult :=
  match (newSession settings).run clock Session.ampleBound source with
  | (_, .finished report) =>
    { exit := exitCode report.verdict, stdout := report.stdout, stderr := report.stderr }
  | (_, .breached breach output) =>
    { exit := exitBroken, stdout := Text.unlines output, breach := some breach }
  | (_, .exhausted output) => { exit := exitBroken, stdout := Text.unlines output }

/-- Runs what reading a script file yields. -/
def runFile (settings : Settings) (clock : Nat → Float) (path : Text) :
    Except ReadError Text → ScriptResult
  | .ok source => runScript settings clock source
  | .error _ => { exit := exitStaticError, stdout := inaccessible path }

/-- The history that a file holds; no path and an unreadable file hold none. -/
def loadHistory (files : Files) (path : Text) : History :=
  match files.read path with
  | .ok text => History.ofText text
  | .error _ => []

/-- The files with the history saved, where that is possible. -/
def saveHistory (files : Files) (path : Text) (history : History) : Files :=
  (files.write? path history.text).getD files

/-- Runs the lines of an input at the prompt. -/
def runPrompt (settings : Settings) (host : Host) (clock : Nat → Float) (files : Files)
    (input : Text) : Outcome :=
  let path := settings.historyPath host
  let repl : Repl := ⟨newSession settings, loadHistory files path⟩
  let ending := repl.play clock settings.prompt input
  match ending.history with
  | some history =>
    { exit := 0, stdout := ending.stdout, stderr := ending.stderr
      files := saveHistory files path history }
  | none =>
    { exit := exitBroken, stdout := ending.stdout, stderr := ending.stderr, files
      breach := ending.breach }

/-- Runs the command with its arguments and standard input. -/
def run (args : List Text) (host : Host) (clock : Nat → Float) (files : Files)
    (input : Text) : Outcome :=
  let settingsPath := host.settingsPath
  let (settings, complaint) := settingsOrDefault settingsPath (files.read settingsPath)
  let outcome : Outcome := match args with
    | [] => runPrompt settings host clock files input
    | [path] =>
      let result := runFile settings clock path (files.read path)
      { exit := result.exit, stdout := result.stdout, stderr := result.stderr, files
        breach := result.breach }
    | _ => { exit := exitUsage, stdout := usage, files }
  { outcome with stderr := complaint ++ outcome.stderr }

end Lox.CommandLine
