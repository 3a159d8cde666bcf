import Lox.CommandLine
import Lox.NodeTypes

/-! The command that declares the node types of a family, on standard output or in a file. -/

namespace Lox.NodeFamily

open CommandLine

def usage : Text := Text.ofString "Usage: ast Expr|Stmt [output.go]\n"

def exitFailure : Nat := 1

def unknown (name : Text) : Text := Text.ofString "unknown base type " ++ name

private def failed (files : Files) (message : Text) : Outcome :=
  { exit := exitFailure, stderr := Text.unlines [message], files }

/-- Puts a text on standard output or in the file that the arguments name. -/
def deliver (text : Text) (files : Files) : List Text → Outcome
  | [] => { exit := 0, stdout := text, files }
  | path :: _ =>
    match files.write? path text with
    | some files => { exit := 0, files }
    | none => failed files (Text.ofString "could not write " ++ path)

/-- Runs the command with its arguments. -/
def command (files : Files) : List Text → Outcome
  | [] => { exit := exitUsage, stdout := usage, files }
  | name :: rest =>
    match (ofName? name).bind text? with
    | some text => deliver text files rest
    | none => failed files (unknown name)

end Lox.NodeFamily
