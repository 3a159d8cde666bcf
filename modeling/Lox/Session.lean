import Lox.Evaluation
import Lox.Log
import Lox.Tree.Parse
import Lox.Tree.Print

/-! Sessions: several programs run one after the other over the same globals. A run reads, resolves
and evaluates one program; what it found and did is its report, from which the verdict, the
diagnostics and the log follow. -/

namespace Lox

/-- A complaint about a program: before it runs or while it runs. -/
inductive Diagnostic
  | static (e : StaticError)
  | fault (f : Fault)
  deriving DecidableEq

namespace Diagnostic

def text : Diagnostic → Text
  | static e => e.text
  | fault f => f.text

/-- The message alone, without line and place. -/
def message : Diagnostic → Text
  | static e => Text.ofString e.cause.message
  | fault f => f.cause.message

def line : Diagnostic → Nat
  | static e => e.line
  | fault f => f.blamed.line

/-- The log entry made when the diagnostic is found. -/
def logEntry (d : Diagnostic) : LogEntry := { level := .debug, message := d.message, line := d.line }

end Diagnostic

inductive Verdict
  | ok
  | staticError
  | runtimeError
  deriving DecidableEq, Repr

def Verdict.word : Verdict → String
  | ok => "ok"
  | staticError => "static error"
  | runtimeError => "runtime error"

/-- What a run found and did. -/
structure Report where
  scan : Scan
  parsed : Parsed
  scopeErrors : List StaticError
  fault : Option Fault
  output : List Text

namespace Report

/-- The errors of reading the program. -/
def readErrors (r : Report) : List StaticError := r.scan.errors ++ r.parsed.errors

def staticErrors (r : Report) : List StaticError := r.readErrors ++ r.scopeErrors

def diagnostics (r : Report) : List Diagnostic :=
  r.staticErrors.map .static ++ (r.fault.map Diagnostic.fault).toList

def verdict (r : Report) : Verdict :=
  if !r.staticErrors.isEmpty then .staticError
  else if r.fault.isSome then .runtimeError
  else .ok

/-- What the run writes to standard output. -/
def stdout (r : Report) : Text := Text.unlines r.output

/-- What the run writes to standard error. -/
def stderr (r : Report) : Text := Text.unlines (r.diagnostics.map (·.text))

private def found (errors : List StaticError) : List LogEntry :=
  errors.map fun e => (Diagnostic.static e).logEntry

/-- The entries up to the end of reading. The number of tokens includes the end. -/
def readingLog (r : Report) : List LogEntry :=
  found r.scan.errors ++
    [{ level := .debug, message := Text.ofString "Source scanned", phase := some .scan
       tokens := some (r.scan.tokens.length + 1) }] ++
    found r.parsed.errors ++
    [{ level := .debug, message := Text.ofString "Source parsed", phase := some .parse
       statements := some r.parsed.statements.length }]

/-- The entries of resolution, which start with the tree. -/
def resolvingLog (r : Report) : List LogEntry :=
  [{ level := .trace, phase := some .parse
     message := Text.newline :: treeText r.parsed.statements }] ++
    found r.scopeErrors ++
    [{ level := .debug, message := Text.ofString "Source resolved", phase := some .resolve }]

def evaluationLog (r : Report) : List LogEntry :=
  (r.fault.map fun f => (Diagnostic.fault f).logEntry).toList ++
    [{ level := .debug, message := Text.ofString "Source interpreted", phase := some .interpret }]

/-- All entries of the run; errors end it after the phase that found them. -/
def entries (r : Report) : List LogEntry :=
  r.readingLog ++
    if !r.readErrors.isEmpty then []
    else r.resolvingLog ++ if !r.scopeErrors.isEmpty then [] else r.evaluationLog

/-- The log at a level. -/
def log (r : Report) (level : LogLevel) : List LogEntry := r.entries.filter fun e => level.shows e.level

end Report

/-- How a run ends: with a report, at a breach, or because its bound is used up. -/
inductive Ending
  | finished (report : Report)
  | breached (b : Breach) (output : List Text)
  | exhausted (output : List Text)

/-- What one run leaves to the next: the heap with the globals, the last node identity, the distances
of all nodes so far, the number of clock readings taken and the diagnostics of the last run. -/
structure Session where
  heap : Heap
  lastId : NodeId
  locals : Locals
  limit : Option Nat
  readings : Nat
  diagnostics : List Diagnostic

namespace Session

/-- A limit on the depth of calls; zero and negative numbers stand for none. -/
def limitOf (n : Int) : Option Nat := if 0 < n then some n.toNat else none

/-- The depth of calls at which a stack overflow is reported, unless set otherwise. -/
def defaultLimit : Int := 10000

def new (limit : Option Nat) : Session := ⟨Heap.initial, 0, {}, limit, 0, []⟩

/-- Drops all globals, distances and diagnostics. The clock goes on. -/
def reset (s : Session) : Session := { new s.limit with readings := s.readings }

/-- A bound on the recursion of evaluation that no run reaches. -/
def ampleBound : Nat := Nat.pow 2 62

/-- Ends a run with its report, whose diagnostics the session keeps. -/
def finish (s : Session) (report : Report) : Session × Ending :=
  ({ s with diagnostics := report.diagnostics }, .finished report)

/-- Takes over what an evaluation has changed. -/
def advance (s : Session) (e : Evaluation.State) : Session :=
  { s with heap := e.heap, readings := e.readings }

/-- Evaluates a program that has been read and resolved. The session keeps the diagnostics of this run, also if it
breaks off. -/
def evaluate (s : Session) (clock : Nat → Float) (bound : Nat) (report : Report) :
    Session × Ending :=
  let context : Evaluation.Context := ⟨s.locals, s.limit, clock⟩
  match Evaluation.execProgram context bound report.parsed.statements (.start s.heap s.readings) with
  | .ok _ e => (s.advance e).finish { report with output := e.output.toList }
  | .error (.fault f) e =>
    (s.advance e).finish { report with output := e.output.toList, fault := some f }
  | .error (.breach b) e =>
    ({ s.advance e with diagnostics := report.diagnostics }, .breached b e.output.toList)
  | .error .exhausted e =>
    ({ s.advance e with diagnostics := report.diagnostics }, .exhausted e.output.toList)

/-- Runs a program text. Node identities and distances stay used even if the program is faulty. -/
def run (s : Session) (clock : Nat → Float) (bound : Nat) (source : Text) : Session × Ending :=
  let scan := Lox.scan source
  let parsed := parse s.lastId scan
  let report : Report := ⟨scan, parsed, [], none, []⟩
  let s := { s with lastId := parsed.lastId }
  if !report.readErrors.isEmpty then s.finish report
  else
    let resolved := resolve s.locals parsed.statements
    let s := { s with locals := resolved.locals }
    if !resolved.errors.isEmpty then s.finish { report with scopeErrors := resolved.errors }
    else s.evaluate clock bound report

/-- The global variables as printed, in the order of their names. -/
def globals (s : Session) : List (Text × Text) :=
  (s.heap.scope Heap.globals).bindings.sorted.map fun (name, value) => (name, s.heap.text value)

/-- All diagnostics of the last run as one text, if there are any. -/
def errorText (s : Session) : Option Text :=
  if s.diagnostics.isEmpty then none
  else some ((Text.ofString "; ").intercalate (s.diagnostics.map (·.text)))

end Session
end Lox
