import Lox.NodeTypes.Command

/-! The program: the command line on the files, the streams and the clock of the computer it runs on.
Called by the name `ast` it declares node types. -/

namespace Lox.Main

def textOf (bytes : ByteArray) : Text := bytes.data.toList

/-- What reading a file yields. -/
def readFile (path : Text) : IO (Except ReadError Text) := do
  let some name := String.fromUTF8? ⟨path.toArray⟩ | return .error .missing
  try
    return .ok (textOf (← IO.FS.readBinFile name))
  catch
    | .noFileOrDirectory .. => return .error .missing
    | _ => return .error .isDirectory

/-- Writes a file and says whether that was possible. -/
def writeFile (path content : Text) : IO Bool := do
  let some name := String.fromUTF8? ⟨path.toArray⟩ | return false
  try
    IO.FS.writeBinFile name ⟨content.toArray⟩
    return true
  catch _ => return false

def put (stream : IO.FS.Stream) (text : Text) : IO Unit := do
  stream.write ⟨text.toArray⟩
  stream.flush

/-- The readings of the clock during a run that starts now, in seconds: a microsecond apart. -/
def clockNow : IO (Nat → Float) := do
  let start := (← IO.monoMsNow).toFloat / 1000.0
  return fun n => start + n.toFloat / 1000000.0

/-- The next line of input with its end; nothing at the end of the input. -/
partial def readLine (input : IO.FS.Stream) (line : Array UInt8) : IO Text := do
  let byte ← input.read 1
  let line := line ++ byte.data
  if byte.isEmpty || byte.data.contains Text.newline then return line.toList
  else readLine input line

def showBreach (breach : Option Breach) : IO Unit :=
  match breach with
  | some b => IO.eprintln b.message
  | none => pure ()

/-- Enters lines that have been read. The prompt is shown before all but the first of them. -/
def enterLines (prompt : Text) (repl : Repl) : List Text → IO (Option Repl)
  | [] => return some repl
  | line :: rest => do
    match repl.enter (← clockNow) line with
    | .next repl stdout stderr =>
      put (← IO.getStdout) stdout
      put (← IO.getStderr) stderr
      if rest.isEmpty then return some repl
      else
        put (← IO.getStdout) prompt
        enterLines prompt repl rest
    | .broken breach stdout =>
      put (← IO.getStdout) stdout
      showBreach breach
      return none

/-- Reads and enters lines up to the end of the input. -/
partial def loop (prompt : Text) (repl : Repl) : IO (Option Repl) := do
  put (← IO.getStdout) prompt
  let line ← readLine (← IO.getStdin) #[]
  if line.isEmpty then return some repl
  match ← enterLines prompt repl ((Lines.ofText line).map (·.line)) with
  | some repl => loop prompt repl
  | none => return none

def runPrompt (settings : Settings) (host : Host) : IO UInt32 := do
  let path := settings.historyPath host
  let history := match ← readFile path with
    | .ok text => History.ofText text
    | .error _ => []
  let repl : Repl := ⟨CommandLine.newSession settings, history⟩
  let last ← if Repl.canShow settings.prompt then loop settings.prompt repl else pure (some repl)
  match last with
  | some repl =>
    if path ≠ [] then
      let _ ← writeFile path repl.history.text
    return 0
  | none => return CommandLine.exitBroken.toUInt32

def runScript (settings : Settings) (path : Text) : IO UInt32 := do
  let result := CommandLine.runFile settings (← clockNow) path (← readFile path)
  put (← IO.getStdout) result.stdout
  put (← IO.getStderr) result.stderr
  showBreach result.breach
  return result.exit.toUInt32

def host : IO Host := do
  return ⟨(← IO.getEnv "HOME").map Text.ofString, (← IO.getEnv "LOX_CONFIG").map Text.ofString⟩

def run (args : List Text) : IO UInt32 := do
  let host ← host
  let path := host.settingsPath
  let (settings, complaint) := CommandLine.settingsOrDefault path (← readFile path)
  put (← IO.getStderr) complaint
  match args with
  | [] => runPrompt settings host
  | [script] => runScript settings script
  | _ =>
    put (← IO.getStdout) CommandLine.usage
    return CommandLine.exitUsage.toUInt32

/-- Declares node types on standard output or in a file. -/
def declare (args : List Text) : IO UInt32 := do
  let outcome := NodeFamily.command (Files.empty []) (args.take 1)
  put (← IO.getStderr) outcome.stderr
  match args with
  | _ :: path :: _ =>
    if outcome.exit = 0 then
      return if ← writeFile path outcome.stdout then 0 else NodeFamily.exitFailure.toUInt32
    else return outcome.exit.toUInt32
  | _ =>
    put (← IO.getStdout) outcome.stdout
    return outcome.exit.toUInt32

end Lox.Main

def main (args : List String) : IO UInt32 := do
  let args := args.map Lox.Text.ofString
  if (← IO.appPath).fileName == some "ast" then Lox.Main.declare args else Lox.Main.run args
