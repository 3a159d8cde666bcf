import Lox.Proofs.Session.Rejection

/-! Diagnostics in sessions. A run can be told pass by pass: each pass notes its errors and makes entries in the
log, errors are printed twice, each time from where printing stopped before, and a fault is printed when it
comes. What is written in this way is what the report of the run says, and it is what the session keeps. -/
namespace Lox

/-- What a run has written so far. `printed` of the errors have been printed already. -/
structure Desk where
  errors : List StaticError
  printed : Nat
  fault : Option Fault
  stderr : Text
  log : List LogEntry

namespace Desk

def empty : Desk := ⟨[], 0, none, [], []⟩

/-- Notes an error, with an entry in the log. -/
def note (d : Desk) (e : StaticError) : Desk :=
  { d with errors := d.errors ++ [e], log := d.log ++ [(Diagnostic.static e).logEntry] }

/-- Makes an entry in the log. -/
def enter (d : Desk) (entry : LogEntry) : Desk := { d with log := d.log ++ [entry] }

/-- A pass notes its errors as it finds them, and makes an entry at its end. -/
def pass (d : Desk) (errors : List StaticError) (entry : LogEntry) : Desk := (errors.foldl note d).enter entry

def writeLine (d : Desk) (line : Text) : Desk := { d with stderr := d.stderr ++ (line ++ [Text.newline]) }

/-- Prints the errors that have not been printed yet. -/
def print (d : Desk) : Desk :=
  let d := (d.errors.drop d.printed).foldl (fun d e => d.writeLine e.text) d
  { d with printed := d.errors.length }

/-- Keeps a fault, with an entry in the log, and prints it. -/
def blame (d : Desk) (f : Fault) : Desk :=
  ({ d with fault := some f }.enter (Diagnostic.fault f).logEntry).writeLine f.text

/-- All that was found, static errors before the fault. -/
def collected (d : Desk) : List Diagnostic := d.errors.map .static ++ (d.fault.map Diagnostic.fault).toList

/-- The desk after scanning and parsing. -/
def read (scan : Scan) (parsed : Parsed) : Desk :=
  let d := empty.pass scan.errors
    { level := .debug, message := Text.ofString "Source scanned", phase := some .scan
      tokens := some (scan.tokens.length + 1) }
  let d := d.pass parsed.errors
    { level := .debug, message := Text.ofString "Source parsed", phase := some .parse
      statements := some parsed.statements.length }
  d.print

/-- The desk after resolution. -/
def resolve (d : Desk) (statements : List Stmt) (errors : List StaticError) : Desk :=
  let d := d.enter { level := .trace, message := Text.newline :: treeText statements, phase := some .parse }
  let d := d.pass errors
    { level := .debug, message := Text.ofString "Source resolved", phase := some .resolve }
  d.print

/-- The desk at the end of an evaluation. -/
def close (d : Desk) : Desk :=
  d.enter { level := .debug, message := Text.ofString "Source interpreted", phase := some .interpret }

/-- The desk and the verdict after an evaluation that comes to its end. -/
def evaluate (d : Desk) : EStateM.Result Evaluation.Stop Evaluation.State Unit → Option (Desk × Verdict)
  | .ok _ _ => some (d.close, .ok)
  | .error (.fault f) _ => some ((d.blame f).close, .runtimeError)
  | .error (.breach _) _ | .error .exhausted _ => none

end Desk

/-- A run, told pass by pass. Nothing is told of a run that does not come to its end. -/
def Session.tell (s : Session) (request : Request) : Option (Desk × Verdict) :=
  let scan := scan request.source
  let parsed := parse s.lastId scan
  let d := Desk.read scan parsed
  if d.errors ≠ [] then some (d, .staticError)
  else
    let resolved := resolve s.locals parsed.statements
    let d := d.resolve parsed.statements resolved.errors
    if d.errors ≠ [] then some (d, .staticError)
    else
      let context : Evaluation.Context := ⟨resolved.locals, s.limit, request.clock⟩
      d.evaluate (Evaluation.execProgram context request.bound parsed.statements (.start s.heap s.readings))

/-! What is on the desk. -/

private theorem Text.unlines_append (xs ys : List Text) : unlines (xs ++ ys) = unlines xs ++ unlines ys := by
  rw [unlines, List.map_append, List.flatten_append]
  rfl

namespace Desk

private theorem noteAll_eq (d : Desk) (errors : List StaticError) :
    errors.foldl note d =
      { d with errors := d.errors ++ errors
               log := d.log ++ errors.map fun e => (Diagnostic.static e).logEntry } := by
  induction errors generalizing d with
  | nil => simp
  | cons e rest ih =>
    refine (ih (d.note e)).trans ?_
    simp [note]

private theorem pass_eq (d : Desk) (errors : List StaticError) (entry : LogEntry) :
    d.pass errors entry =
      { d with errors := d.errors ++ errors
               log := d.log ++ errors.map (fun e => (Diagnostic.static e).logEntry) ++ [entry] } := by
  rw [pass, noteAll_eq]
  rfl

private theorem writeLines_eq (d : Desk) (errors : List StaticError) :
    errors.foldl (fun d e => d.writeLine e.text) d =
      { d with stderr := d.stderr ++ Text.unlines (errors.map (·.text)) } := by
  induction errors generalizing d with
  | nil => simp [Text.unlines]
  | cons e rest ih =>
    refine (ih (d.writeLine e.text)).trans ?_
    simp [writeLine, Text.unlines]

private theorem print_eq (d : Desk) :
    d.print = { d with printed := d.errors.length
                       stderr := d.stderr ++ Text.unlines ((d.errors.drop d.printed).map (·.text)) } := by
  simp only [print, writeLines_eq]

/-- The books balance: what has been printed are the first errors, as far as the cursor says, and then the
fault. The entries with a line are those of all that was found. -/
structure Balanced (d : Desk) : Prop where
  cursor : d.printed ≤ d.errors.length
  stderr : d.stderr = Text.unlines ((d.errors.take d.printed).map (·.text) ++ (d.fault.map Fault.text).toList)
  log : d.log.filter (·.line.isSome) = d.collected.map (·.logEntry)

private theorem balanced_empty : empty.Balanced := ⟨Nat.le_refl 0, rfl, rfl⟩

variable {d : Desk} {r : Report}

private theorem collected_of_running (running : d.fault = none) : d.collected = d.errors.map .static := by
  rw [collected, running, Option.map_none, Option.toList_none, List.append_nil]

namespace Balanced

private theorem enter (balanced : d.Balanced) {entry : LogEntry} (plain : entry.line = none) :
    (d.enter entry).Balanced := by
  refine ⟨balanced.cursor, balanced.stderr, ?_⟩
  have none : [entry].filter (·.line.isSome) = [] := by simp [plain]
  simp only [Desk.enter, List.filter_append, none, List.append_nil]
  exact balanced.log

/-- An error is noted behind those that are printed. -/
theorem note (balanced : d.Balanced) (running : d.fault = none) (e : StaticError) : (d.note e).Balanced := by
  refine ⟨?_, ?_, ?_⟩
  · simp only [Desk.note, List.length_append]
    exact Nat.le_add_right_of_le balanced.cursor
  · simp only [Desk.note, List.take_append_of_le_length balanced.cursor]
    exact balanced.stderr
  · have logged : (d.note e).log = d.log ++ [(Diagnostic.static e).logEntry] := rfl
    have found : (d.note e).collected = d.collected ++ [.static e] := by
      rw [collected_of_running (show (d.note e).fault = none from running), collected_of_running running]
      exact List.map_append
    rw [logged, found, List.filter_append, balanced.log, List.map_append]
    rfl

private theorem noteAll (balanced : d.Balanced) (running : d.fault = none) (errors : List StaticError) :
    (errors.foldl Desk.note d).Balanced := by
  induction errors generalizing d with
  | nil => exact balanced
  | cons e rest ih => exact ih (balanced.note running e) running

private theorem pass (balanced : d.Balanced) (running : d.fault = none) (errors : List StaticError) {entry : LogEntry}
    (plain : entry.line = none) : (d.pass errors entry).Balanced :=
  (balanced.noteAll running errors).enter plain

private theorem stderr_of_running (balanced : d.Balanced) (running : d.fault = none) :
    d.stderr = Text.unlines ((d.errors.take d.printed).map (·.text)) := by
  have written := balanced.stderr
  rwa [running, Option.map_none, Option.toList_none, List.append_nil] at written

/-- Each error is printed once, as long as there has been no fault. -/
theorem print (balanced : d.Balanced) (running : d.fault = none) : d.print.Balanced := by
  rw [print_eq]
  refine ⟨Nat.le_refl _, ?_, balanced.log⟩
  rw [running, Option.map_none, Option.toList_none, List.append_nil, List.take_length,
    balanced.stderr_of_running running, ← Text.unlines_append, ← List.map_append, List.take_append_drop]

private theorem blame (balanced : d.Balanced) (running : d.fault = none) (f : Fault) : (d.blame f).Balanced := by
  refine ⟨balanced.cursor, ?_, ?_⟩
  · have written : (d.blame f).stderr = d.stderr ++ Text.unlines [f.text] := by
      simp [Desk.blame, writeLine, Desk.enter, Text.unlines]
    rw [written, balanced.stderr_of_running running, ← Text.unlines_append]
    rfl
  · have logged : (d.blame f).log = d.log ++ [(Diagnostic.fault f).logEntry] := rfl
    have found : (d.blame f).collected = d.collected ++ [.fault f] := by
      rw [collected_of_running running]
      rfl
    rw [logged, found, List.filter_append, balanced.log, List.map_append]
    rfl

/-- Where all errors are printed, all that was found is. -/
theorem complete (balanced : d.Balanced) (all : d.printed = d.errors.length) :
    d.stderr = Text.unlines (d.collected.map (·.text)) := by
  rw [balanced.stderr, all, List.take_length, collected, List.map_append, List.map_map]
  cases d.fault <;> rfl

end Balanced

/-- The desk says what the report says. -/
structure Tells (d : Desk) (r : Report) : Prop where
  balanced : d.Balanced
  printed : d.printed = d.errors.length
  errors : d.errors = r.staticErrors
  fault : d.fault = r.fault
  log : d.log = r.entries

namespace Tells

private theorem collected (tells : d.Tells r) : d.collected = r.diagnostics := by
  rw [Desk.collected, tells.errors, tells.fault]
  rfl

private theorem stderr (tells : d.Tells r) : d.stderr = r.stderr := by
  rw [tells.balanced.complete tells.printed, tells.collected]
  rfl

/-- The entries with a line, at every level that shows them. -/
theorem logged (tells : d.Tells r) {level : LogLevel} (fine : level.shows .debug = true) :
    (r.log level).filter (·.line.isSome) = r.diagnostics.map (·.logEntry) := by
  have shown : ∀ entry ∈ r.diagnostics.map (·.logEntry), level.shows entry.level = true := by
    rw [List.forall_mem_map]
    exact fun _ _ => fine
  calc (r.log level).filter (·.line.isSome)
      = (r.entries.filter (·.line.isSome)).filter (fun e => level.shows e.level) := by
        rw [Report.log, List.filter_filter, List.filter_filter]
        exact List.filter_congr fun _ _ => Bool.and_comm ..
    _ = r.diagnostics.map (·.logEntry) := by
        rw [← tells.log, tells.balanced.log, tells.collected, List.filter_eq_self.2 shown]

end Tells

/-! One pass after the other. -/

private theorem read_errors (scan : Scan) (parsed : Parsed) :
    (read scan parsed).errors = scan.errors ++ parsed.errors := by
  simp only [read, print_eq, pass_eq, empty, List.nil_append]

private theorem read_fault (scan : Scan) (parsed : Parsed) : (read scan parsed).fault = none := by
  simp only [read, print_eq, pass_eq, empty]

private theorem read_balanced (scan : Scan) (parsed : Parsed) : (read scan parsed).Balanced := by
  refine ((balanced_empty.pass rfl scan.errors rfl).pass ?_ parsed.errors rfl).print ?_ <;>
    simp only [pass_eq, empty]

private theorem read_log (r : Report) : (read r.scan r.parsed).log = r.readingLog := by
  simp only [read, print_eq, pass_eq, empty, List.nil_append]
  rfl

private theorem resolve_errors (d : Desk) (statements : List Stmt) (errors : List StaticError) :
    (d.resolve statements errors).errors = d.errors ++ errors := by
  simp only [resolve, print_eq, pass_eq, enter]

private theorem resolve_fault (d : Desk) (statements : List Stmt) (errors : List StaticError) :
    (d.resolve statements errors).fault = d.fault := by
  simp only [resolve, print_eq, pass_eq, enter]

private theorem resolve_printed (d : Desk) (statements : List Stmt) (errors : List StaticError) :
    (d.resolve statements errors).printed = (d.resolve statements errors).errors.length := by
  simp only [resolve, print_eq]

private theorem resolve_balanced (balanced : d.Balanced) (running : d.fault = none) (statements : List Stmt)
    (errors : List StaticError) : (d.resolve statements errors).Balanced := by
  refine ((balanced.enter rfl).pass running errors rfl).print ?_
  rw [pass_eq]
  exact running

private theorem resolve_log (logged : d.log = r.readingLog) :
    (d.resolve r.parsed.statements r.scopeErrors).log = r.readingLog ++ r.resolvingLog := by
  simp only [resolve, print_eq, pass_eq, enter, logged, List.append_assoc]
  rfl

/-- What a run has told when it ends with reading. -/
theorem read_tells (unreadable : r.readErrors ≠ []) (unresolved : r.scopeErrors = []) (running : r.fault = none) :
    (read r.scan r.parsed).Tells r := by
  refine ⟨read_balanced .., rfl, ?_, (read_fault ..).trans running.symm, ?_⟩
  · rw [read_errors, Report.staticErrors, unresolved, List.append_nil]
    rfl
  · rw [read_log, Report.entries, if_pos (by simpa using unreadable), List.append_nil]

/-- What a run has told when it comes to the end of resolution. -/
structure Resolves (d : Desk) (r : Report) : Prop where
  balanced : d.Balanced
  printed : d.printed = d.errors.length
  errors : d.errors = r.staticErrors
  running : d.fault = none
  log : d.log = r.readingLog ++ r.resolvingLog

private theorem resolve_resolves (r : Report) :
    ((read r.scan r.parsed).resolve r.parsed.statements r.scopeErrors).Resolves r := by
  refine ⟨resolve_balanced (read_balanced ..) (read_fault ..) .., resolve_printed .., ?_, ?_,
    resolve_log (read_log r)⟩
  · rw [resolve_errors, read_errors]
    rfl
  · rw [resolve_fault, read_fault]

namespace Resolves

/-- Resolution comes before output and faults. -/
theorem evaluated (resolves : d.Resolves r) (output : List Text) (fault : Option Fault) :
    d.Resolves { r with output := output, fault := fault } :=
  ⟨resolves.balanced, resolves.printed, resolves.errors, resolves.running, resolves.log⟩

/-- What it has told when it ends there. -/
theorem tells (resolves : d.Resolves r) (read : r.readErrors = []) (unresolved : r.scopeErrors ≠ [])
    (running : r.fault = none) : d.Tells r := by
  refine ⟨resolves.balanced, resolves.printed, resolves.errors, resolves.running.trans running.symm, ?_⟩
  rw [resolves.log, Report.entries, if_neg (by simp [read]), if_pos (by simpa using unresolved), List.append_nil]

private theorem entries (resolves : d.Resolves r) (static : r.staticErrors = []) :
    r.entries = d.log ++ r.evaluationLog := by
  have ⟨read, resolved⟩ := List.append_eq_nil_iff.1 static
  rw [resolves.log, Report.entries, if_neg (by simp [read]), if_neg (by simp [resolved]), List.append_assoc]

/-- What it has told when the evaluation comes to its end. -/
theorem close_tells (resolves : d.Resolves r) (static : r.staticErrors = []) (running : r.fault = none) :
    d.close.Tells r := by
  refine ⟨resolves.balanced.enter rfl, resolves.printed, resolves.errors, resolves.running.trans running.symm, ?_⟩
  rw [resolves.entries static, Report.evaluationLog, running]
  rfl

/-- What it has told when the evaluation ends with a fault. -/
theorem blame_tells (resolves : d.Resolves r) (static : r.staticErrors = []) (fault : r.fault = some f) :
    (d.blame f).close.Tells r := by
  refine ⟨(resolves.balanced.blame resolves.running f).enter rfl, resolves.printed, resolves.errors, fault.symm, ?_⟩
  rw [resolves.entries static, Report.evaluationLog, fault]
  exact List.append_assoc ..

end Resolves
end Desk

/-! What reports say. -/

namespace Report

variable {r : Report}

private theorem verdict_eq_staticError : r.verdict = .staticError ↔ r.staticErrors ≠ [] := by
  unfold verdict
  cases r.staticErrors <;> cases r.fault <;> simp

private theorem verdict_eq_runtimeError : r.verdict = .runtimeError ↔ r.staticErrors = [] ∧ ∃ f, r.fault = some f := by
  unfold verdict
  cases r.staticErrors <;> cases r.fault <;> simp

private theorem verdict_eq_ok : r.verdict = .ok ↔ r.diagnostics = [] := by
  unfold verdict diagnostics
  cases r.staticErrors <;> cases r.fault <;> simp

/-- There are static errors or there is a fault, not both. -/
def Exclusive (r : Report) : Prop := r.staticErrors ≠ [] → r.fault = none

private theorem diagnostics_of_fault (static : r.staticErrors = []) (fault : r.fault = some f) :
    r.diagnostics = [.fault f] := by
  rw [diagnostics, static, fault]
  rfl

private theorem Exclusive.static_iff (exclusive : r.Exclusive) :
    r.staticErrors ≠ [] ↔ r.diagnostics ≠ [] ∧ ∀ d ∈ r.diagnostics, ∃ e, d = .static e := by
  constructor
  · intro static
    rw [diagnostics, exclusive static, Option.map_none, Option.toList_none, List.append_nil]
    refine ⟨fun none => static (List.map_eq_nil_iff.1 none), ?_⟩
    intro d member
    obtain ⟨e, -, same⟩ := List.mem_map.1 member
    exact ⟨e, same.symm⟩
  · rintro ⟨present, all⟩ static
    cases fault : r.fault with
    | none =>
      apply present
      rw [diagnostics, static, fault]
      rfl
    | some f =>
      rw [diagnostics_of_fault static fault] at all
      obtain ⟨e, same⟩ := all (.fault f) (List.mem_singleton_self _)
      cases same

private theorem Exclusive.fault_iff (exclusive : r.Exclusive) :
    (r.staticErrors = [] ∧ ∃ f, r.fault = some f) ↔ ∃ f, r.diagnostics = [.fault f] := by
  constructor
  · rintro ⟨static, f, fault⟩
    exact ⟨f, diagnostics_of_fault static fault⟩
  · rintro ⟨f, only⟩
    have static : r.staticErrors = [] := by
      refine Classical.byContradiction fun static => ?_
      obtain ⟨-, all⟩ := exclusive.static_iff.1 static
      rw [only] at all
      obtain ⟨e, same⟩ := all (.fault f) (List.mem_singleton_self _)
      cases same
    cases fault : r.fault with
    | none =>
      rw [diagnostics, static, fault] at only
      cases only
    | some g => exact ⟨static, g, rfl⟩

end Report

namespace Session

variable {s t : Session} {request : Request} {r report : Report}

/-- How a run that comes to its end is told: only a program without static errors is evaluated. -/
structure Concluded (s : Session) (request : Request) (report : Report) (desk : Desk) : Prop where
  told : s.tell request = some (desk, report.verdict)
  tells : desk.Tells report
  exclusive : report.Exclusive
  silent : report.staticErrors ≠ [] → report.stdout = []

private theorem tell_unreadable (unreadable : (s.reading request.source).readErrors ≠ []) :
    s.tell request = some (Desk.read (scan request.source) (parse s.lastId (scan request.source)), .staticError) := by
  simp only [tell, Desk.read_errors]
  exact if_pos unreadable

private theorem tell_readable (read : (s.reading request.source).readErrors = []) :
    s.tell request =
      let resolved := resolve s.locals (s.program request.source)
      let d := (Desk.read (scan request.source) (parse s.lastId (scan request.source))).resolve
        (s.program request.source) resolved.errors
      if resolved.errors ≠ [] then some (d, .staticError)
      else d.evaluate (Evaluation.execProgram ⟨resolved.locals, s.limit, request.clock⟩ request.bound
        (s.program request.source) (.start s.heap s.readings)) := by
  have none : (scan request.source).errors ++ (parse s.lastId (scan request.source)).errors = [] := read
  simp only [tell, Desk.resolve_errors, Desk.read_errors, none, List.nil_append]
  exact if_neg (not_not_intro rfl)

/-- An evaluation that comes to its end, after a program has been resolved. -/
theorem concluded_of_evaluated {desk : Desk} {result : EStateM.Result Evaluation.Stop Evaluation.State Unit}
    (told : s.tell request = desk.evaluate result) (resolves : desk.Resolves r) (clean : r.Clean)
    (ended : (t.conclude r result).2 = .finished report) : ∃ desk, s.Concluded request report desk := by
  have static := clean.static
  unfold conclude at ended
  split at ended
  case h_1 e =>
    cases ended
    have finished : ({ r with output := e.output.toList } : Report).Clean := ⟨static, clean.fault⟩
    refine ⟨_, ?_, (resolves.evaluated _ _).close_tells static clean.fault, (absurd static ·), (absurd static ·)⟩
    rw [told, finished.verdict]
    rfl
  case h_2 f e =>
    cases ended
    have verdict : ({ r with output := e.output.toList, fault := some f } : Report).verdict = .runtimeError :=
      Report.verdict_eq_runtimeError.2 ⟨static, f, rfl⟩
    refine ⟨_, ?_, (resolves.evaluated _ _).blame_tells static rfl, (absurd static ·), (absurd static ·)⟩
    rw [told, verdict]
    rfl
  case h_3 => cases ended
  case h_4 => cases ended

private theorem concluded_of_finished (ran : (s.perform request).2 = .finished report) :
    ∃ desk, s.Concluded request report desk := by
  unfold perform at ran
  by_cases read : (s.reading request.source).readErrors = []
  · by_cases resolved : (resolve s.locals (s.program request.source)).errors = []
    · have accepts := accepts_of_read read resolved
      have told := tell_readable read
      rw [run_accepted accepts, evaluate_eq] at ran
      simp only [resolved, ne_eq, not_true_eq_false, if_false] at told
      exact concluded_of_evaluated told (Desk.resolve_resolves (s.reading request.source)) accepts.clean ran
    · rw [run_unresolved read resolved] at ran
      cases ran
      refine ⟨_, ?_, (Desk.resolve_resolves _).tells read resolved rfl, fun _ => rfl, fun _ => rfl⟩
      rw [tell_readable read, Report.verdict_eq_staticError.2 fun none => resolved (List.append_eq_nil_iff.1 none).2]
      exact if_pos resolved
  · rw [run_unreadable read] at ran
    cases ran
    refine ⟨_, ?_, Desk.read_tells read rfl rfl, fun _ => rfl, fun _ => rfl⟩
    rw [tell_unreadable read, Report.verdict_eq_staticError.2 fun none => read (List.append_eq_nil_iff.1 none).1]
    rfl

private theorem errorText_eq_none : s.errorText = none ↔ s.diagnostics = [] := by
  unfold errorText
  cases s.diagnostics <;> simp

/-- Diagnostics, verdict and log agree. What a run writes, told pass by pass, is what the session keeps. -/
theorem diagnostics_cohere (s : Session) (request : Request) (report : Report)
    (ran : (s.perform request).2 = .finished report) :
    let kept := (s.perform request).1
    (∃ desk, s.tell request = some (desk, report.verdict) ∧ desk.stderr = report.stderr ∧
      desk.collected = kept.diagnostics ∧ desk.log = report.entries) ∧
    report.stderr = Text.unlines (kept.diagnostics.map (·.text)) ∧
    (report.verdict = .ok ↔ kept.errorText = none) ∧
    (report.verdict = .staticError ↔
      kept.diagnostics ≠ [] ∧ ∀ d ∈ kept.diagnostics, ∃ e, d = .static e) ∧
    (report.verdict = .staticError → report.stdout = []) ∧
    (report.verdict = .runtimeError ↔ ∃ f, kept.diagnostics = [.fault f]) ∧
    ∀ level : LogLevel, level.shows .debug = true →
      ((report.log level).filter (·.line.isSome)).map (fun entry => (entry.line, entry.message)) =
        kept.diagnostics.map fun d => (some d.line, d.message) := by
  have ⟨desk, concluded⟩ := concluded_of_finished ran
  have exclusive := concluded.exclusive
  have keeps : (s.perform request).1.diagnostics = report.diagnostics := run_diagnostics ran
  simp only [errorText_eq_none, keeps]
  refine ⟨⟨desk, concluded.told, concluded.tells.stderr, concluded.tells.collected, concluded.tells.log⟩, rfl,
    Report.verdict_eq_ok, Report.verdict_eq_staticError.trans exclusive.static_iff, ?_,
    Report.verdict_eq_runtimeError.trans exclusive.fault_iff, ?_⟩
  · intro static
    exact concluded.silent (Report.verdict_eq_staticError.1 static)
  · intro level fine
    rw [concluded.tells.logged fine, List.map_map]
    rfl

/-- A run with errors of two passes, and a run with a fault in the same session. -/
theorem diagnostics_cohere_after_errors :
    let unreadable : Request := ⟨fun _ => 0, 20, Text.ofString "print @;\nvar;"⟩
    let faulty : Request := ⟨fun _ => 0, 20, Text.ofString "print nil;\nprint nil.x;"⟩
    let s := ((new none).perform unreadable).1
    let kept := (s.perform faulty).1
    s.diagnostics.length = 3 ∧ kept.diagnostics.length = 1 ∧ ∃ report, (s.perform faulty).2 = .finished report ∧
      report.verdict = .runtimeError ∧ report.stderr = Text.unlines (kept.diagnostics.map (·.text)) := by
  intro unreadable faulty s kept
  have errors : s.diagnostics.length = 3 := by decide +kernel
  have fault : kept.diagnostics.length = 1 := by decide +kernel
  have verdict : (s.perform faulty).2.verdict? = some .runtimeError := by decide +kernel
  cases ending : (s.perform faulty).2 with
  | finished report =>
    rw [ending] at verdict
    exact ⟨errors, fault, report, rfl, Option.some.inj verdict, (diagnostics_cohere s faulty report ending).2.1⟩
  | breached | exhausted =>
    rw [ending] at verdict
    cases verdict

end Session
end Lox
