import Lox.Proofs.Evaluation.Simulation
import Lox.Session

/-! Runs and their endings. A text with static errors changes no more than identities and distances; any
other is evaluated, and evaluations that are alike end alike. -/
namespace Lox

open Likeness

namespace Session

variable {s t : Session} {source : Text}

/-- The program that a text is read as. -/
def program (s : Session) (source : Text) : List Stmt := (parse s.lastId (scan source)).statements

/-- A text without static errors. -/
structure Accepts (s : Session) (source : Text) : Prop where
  scan : (Lox.scan source).errors = []
  parse : (Lox.parse s.lastId (Lox.scan source)).errors = []
  resolve : (Lox.resolve s.locals (s.program source)).errors = []

/-- The session once a text has been read and resolved. -/
def prepared (s : Session) (source : Text) : Session :=
  { s with
    lastId := (parse s.lastId (scan source)).lastId
    locals := (resolve s.locals (s.program source)).locals }

/-- What is known of a text before its evaluation. -/
def reading (s : Session) (source : Text) : Report := ⟨scan source, parse s.lastId (scan source), [], none, []⟩

theorem run_accepted (accepts : s.Accepts source) (clock : Nat → Float) (bound : Nat) :
    s.run clock bound source = (s.prepared source).evaluate clock bound (s.reading source) := by
  have read : (s.reading source).readErrors = [] := by
    rw [Report.readErrors, reading, accepts.scan, accepts.parse, List.append_nil]
  have resolved := accepts.resolve
  unfold reading at read
  unfold program at resolved
  simp only [run, read, resolved, List.isEmpty_nil, Bool.not_true, Bool.false_eq_true, if_false]
  rfl

/-- A text that cannot be read is not resolved. -/
theorem run_unreadable (unreadable : (s.reading source).readErrors ≠ []) (clock : Nat → Float) (bound : Nat) :
    s.run clock bound source =
      ({ s with lastId := (parse s.lastId (scan source)).lastId } : Session).finish (s.reading source) := by
  unfold reading at unreadable
  simp only [run]
  rw [if_pos (by simpa using unreadable)]
  rfl

/-- A text that cannot be resolved is not evaluated. -/
theorem run_unresolved (read : (s.reading source).readErrors = [])
    (unresolved : (resolve s.locals (s.program source)).errors ≠ []) (clock : Nat → Float) (bound : Nat) :
    s.run clock bound source = (s.prepared source).finish
      { s.reading source with scopeErrors := (resolve s.locals (s.program source)).errors } := by
  unfold reading at read
  unfold program at unresolved
  simp only [run, read, List.isEmpty_nil, Bool.not_true, Bool.false_eq_true, if_false]
  rw [if_pos (by simpa using unresolved)]
  rfl

theorem accepts_of_read (read : (s.reading source).readErrors = [])
    (resolved : (resolve s.locals (s.program source)).errors = []) : s.Accepts source :=
  have ⟨scanned, parsed⟩ := List.append_eq_nil_iff.1 read
  ⟨scanned, parsed, resolved⟩

/-- A text with static errors changes no more than identities and distances. -/
theorem run_rejected (rejects : ¬ s.Accepts source) (clock : Nat → Float) (bound : Nat) :
    ∃ t report, s.run clock bound source = t.finish report ∧ report.staticErrors ≠ [] ∧
      (t = { s with lastId := (parse s.lastId (scan source)).lastId } ∨
        (parse s.lastId (scan source)).errors = [] ∧ t = s.prepared source) := by
  by_cases read : (s.reading source).readErrors = []
  · have unresolved : (resolve s.locals (s.program source)).errors ≠ [] := fun resolved =>
      rejects (accepts_of_read read resolved)
    exact ⟨_, _, run_unresolved read unresolved clock bound,
      fun none => unresolved (List.append_eq_nil_iff.1 none).2, .inr ⟨(List.append_eq_nil_iff.1 read).2, rfl⟩⟩
  · exact ⟨_, _, run_unreadable read clock bound, fun none => read (List.append_eq_nil_iff.1 none).1, .inl rfl⟩

/-! How runs that are alike end. -/

/-- What a run makes of the result of its evaluation. -/
def conclude (s : Session) (report : Report) :
    EStateM.Result Evaluation.Stop Evaluation.State Unit → Session × Ending
  | .ok _ e => (s.advance e).finish { report with output := e.output.toList }
  | .error (.fault f) e => (s.advance e).finish { report with output := e.output.toList, fault := some f }
  | .error (.breach b) e => ({ s.advance e with diagnostics := report.diagnostics }, .breached b e.output.toList)
  | .error .exhausted e => ({ s.advance e with diagnostics := report.diagnostics }, .exhausted e.output.toList)

theorem evaluate_eq (s : Session) (clock : Nat → Float) (bound : Nat) (report : Report) :
    s.evaluate clock bound report = s.conclude report
      (Evaluation.execProgram ⟨s.locals, s.limit, clock⟩ bound report.parsed.statements
        (.start s.heap s.readings)) := by
  rfl

theorem conclude_lastId (s : Session) (report : Report) (result) :
    (s.conclude report result).1.lastId = s.lastId := by
  unfold conclude
  split <;> rfl

theorem conclude_limit (s : Session) (report : Report) (result) :
    (s.conclude report result).1.limit = s.limit := by
  unfold conclude
  split <;> rfl

theorem conclude_locals (s : Session) (report : Report) (result) :
    (s.conclude report result).1.locals = s.locals := by
  unfold conclude
  split <;> rfl

end Session

/-- A report of nothing wrong. -/
structure Report.Clean (r : Report) : Prop where
  static : r.staticErrors = []
  fault : r.fault = none

theorem Report.Clean.verdict {r : Report} (clean : r.Clean) : r.verdict = .ok := by
  simp [Report.verdict, clean.static, clean.fault]

private theorem Report.clean_of_verdict {r : Report} (ok : r.verdict = .ok) : r.Clean := by
  unfold Report.verdict at ok
  split at ok
  · cases ok
  · split at ok
    · cases ok
    · rename_i static fault
      exact ⟨by simpa using static, by simpa using fault⟩

private theorem Report.diagnostics_of_static {r : Report} (static : r.staticErrors = []) :
    r.diagnostics.map (·.text) = (r.fault.map Fault.text).toList := by
  rw [Report.diagnostics, static]
  cases r.fault <;> rfl

namespace Ending

/-- What was printed, however the run ended. -/
def output : Ending → List Text
  | .finished r => r.output
  | .breached _ output => output
  | .exhausted output => output

def stdout (e : Ending) : Text := Text.unlines e.output

def stderr : Ending → Text
  | .finished r => r.stderr
  | .breached .. | .exhausted _ => []

/-- What is said about a run that has come to its end. -/
def complaints : Ending → List Text
  | .finished r => r.diagnostics.map (·.text)
  | .breached .. | .exhausted _ => []

theorem stderr_eq (e : Ending) : e.stderr = Text.unlines e.complaints := by cases e <;> rfl

def verdict? : Ending → Option Verdict
  | .finished r => some r.verdict
  | .breached .. | .exhausted _ => none

def fault? : Ending → Option Fault
  | .finished r => r.fault
  | .breached .. | .exhausted _ => none

/-- The line on which the fault is reported. -/
def faultLine? (e : Ending) : Option Nat := e.fault?.map (·.blamed.line)

/-- The assumption about resolved names that failed. -/
def breach? : Ending → Option Breach
  | .breached b _ => some b
  | .finished _ | .exhausted _ => none

theorem finished_of_ok {e : Ending} (ok : e.verdict? = some .ok) : ∃ r, e = .finished r ∧ r.Clean := by
  cases e with
  | finished r => exact ⟨r, rfl, Report.clean_of_verdict (Option.some.inj ok)⟩
  | breached | exhausted => cases ok

/-- Endings of two evaluations: the output of the second starts with what was printed before. -/
inductive Alike (p : Pairing) (before : List Text) (report report' : Report) : Ending → Ending → Prop where
  | ok : Alike p before report report' (.finished { report with output := out })
      (.finished { report' with output := before ++ out })
  | fault (cause : f'.cause = f.cause) (blames : p.blames f.blamed f'.blamed) :
      Alike p before report report' (.finished { report with output := out, fault := some f })
        (.finished { report' with output := before ++ out, fault := some f' })
  | breached (lax : ¬ p.strict) : Alike p before report report' (.breached b out) (.breached b (before ++ out))
  | exhausted : Alike p before report report' (.exhausted out) (.exhausted (before ++ out))

namespace Alike

variable {report report' : Report} {e e' : Ending}

theorem output (alike : Alike p before report report' e e') : e'.output = before ++ e.output := by
  cases alike <;> rfl

theorem stdout (alike : Alike p before report report' e e') : e'.stdout = Text.unlines before ++ e.stdout := by
  rw [Ending.stdout, alike.output, Text.unlines, List.map_append, List.flatten_append]
  rfl

theorem breach? (alike : Alike p before report report' e e') : e'.breach? = e.breach? := by
  cases alike <;> rfl

theorem not_breached (alike : Alike p before report report' e e') (strict : p.strict) : e.breach? = none := by
  cases alike with
  | breached lax => exact absurd strict lax
  | ok | fault | exhausted => rfl

theorem fault? (alike : Alike p before report report' e e') (clean : report.Clean) (clean' : report'.Clean) :
    e.fault? = none ∧ e'.fault? = none ∨ ∃ f f', e.fault? = some f ∧ e'.fault? = some f' ∧
      f'.cause = f.cause ∧ p.blames f.blamed f'.blamed := by
  cases alike with
  | ok => exact .inl ⟨clean.fault, clean'.fault⟩
  | fault cause blames => exact .inr ⟨_, _, rfl, rfl, cause, blames⟩
  | breached | exhausted => exact .inl ⟨rfl, rfl⟩

/-- A fault on one side is one on the other side. -/
theorem exists_fault (alike : Alike p before report report' e e') (clean : report.Clean) (clean' : report'.Clean)
    (faulty : e.fault? = some f) : ∃ f', e'.fault? = some f' ∧ f'.cause = f.cause ∧ p.blames f.blamed f'.blamed := by
  obtain ⟨none, -⟩ | ⟨g, f', fault, fault', same⟩ := alike.fault? clean clean'
  · rw [none] at faulty
    cases faulty
  · rw [fault] at faulty
    cases faulty
    exact ⟨f', fault', same⟩

theorem verdict? (alike : Alike p before report report' e e') (clean : report.Clean) (clean' : report'.Clean) :
    e'.verdict? = e.verdict? := by
  cases alike with
  | ok =>
    have left := Report.Clean.verdict ⟨clean.static, clean.fault⟩
    have right := Report.Clean.verdict ⟨clean'.static, clean'.fault⟩
    exact congrArg some (right.trans left.symm)
  | fault =>
    have faulty : ∀ {r : Report} out f, r.Clean →
        ({ r with output := out, fault := some f } : Report).verdict = .runtimeError := by
      intro r out f clean
      have static : ({ r with output := out, fault := some f } : Report).staticErrors = [] := clean.static
      simp [Report.verdict, static]
    exact congrArg some ((faulty _ _ clean').trans (faulty _ _ clean).symm)
  | breached | exhausted => rfl

/-- On the same lines the same is said. -/
theorem complaints (alike : Alike p before report report' e e') (clean : report.Clean) (clean' : report'.Clean)
    (lines : ∀ {name other}, p.blames name other → other.line = name.line) : e'.complaints = e.complaints := by
  cases alike with
  | ok =>
    have left := Report.diagnostics_of_static clean.static
    have right := Report.diagnostics_of_static clean'.static
    rw [clean.fault] at left
    rw [clean'.fault] at right
    exact right.trans left.symm
  | @fault f out f' cause same =>
    have left := @Report.diagnostics_of_static { report with output := out, fault := some f } clean.static
    have right := @Report.diagnostics_of_static { report' with output := before ++ out, fault := some f' }
      clean'.static
    have text : f'.text = f.text := by rw [Fault.text, Fault.text, cause, lines same]
    refine right.trans (Eq.trans ?_ left.symm)
    rw [Option.map_some, Option.map_some, text]
  | breached | exhausted => rfl

theorem stderr (alike : Alike p before report report' e e') (clean : report.Clean) (clean' : report'.Clean)
    (lines : ∀ {name other}, p.blames name other → other.line = name.line) : e'.stderr = e.stderr := by
  rw [stderr_eq, stderr_eq, alike.complaints clean clean' lines]

end Alike
end Ending

namespace Session

variable {s t : Session} {source : Text}

theorem Accepts.clean (accepts : s.Accepts source) : (s.reading source).Clean := by
  refine ⟨?_, rfl⟩
  rw [Report.staticErrors, Report.readErrors, reading, accepts.scan, accepts.parse]
  rfl

/-- A run that reports nothing wrong had nothing wrong before it. -/
theorem accepts_of_clean {report : Report} (ran : (s.run clock bound source).2 = .finished report)
    (clean : report.Clean) : s.Accepts source := by
  refine Classical.byContradiction fun rejects => ?_
  obtain ⟨t, report', rejected, static, -⟩ := run_rejected rejects clock bound
  rw [rejected] at ran
  cases ran
  exact static clean.static

/-- A text with static errors is not evaluated, so there is no fault. -/
theorem accepts_of_fault (faulty : (s.run clock bound source).2.fault? = some f) : s.Accepts source := by
  by_cases read : (s.reading source).readErrors = []
  · by_cases resolved : (resolve s.locals (s.program source)).errors = []
    · exact accepts_of_read read resolved
    · rw [run_unresolved read resolved] at faulty
      cases faulty
  · rw [run_unreadable read] at faulty
    cases faulty

/-- Sessions after evaluations that are alike. -/
structure Follows (p : Pairing) (s s' : Session) : Prop where
  heap : ∃ ν, HeapAlike p ν s.heap s'.heap
  readings : s'.readings = s.readings

/-- Globals are printed alike. -/
theorem Follows.globals {s s' : Session} (follows : Follows p s s') : s'.globals = s.globals := by
  obtain ⟨ν, heap⟩ := follows.heap
  rw [Session.globals, Session.globals, heap.globals]
  exact List.map_congr_left fun entry _ => congrArg (Prod.mk entry.1) (heap.text entry.2)

/-- Alike evaluations end alike. -/
theorem conclude_alike {post : List Renaming → Unit → Evaluation.State → Prop} (s s' : Session)
    (report report' : Report) (sim : Sim p before ν e post result result') :
    Follows p (s.conclude report result).1 (s'.conclude report' result').1 ∧
      Ending.Alike p before report report' (s.conclude report result).2 (s'.conclude report' result').2 := by
  cases sim with
  | ok reached =>
    have settled := reached.alike.toSettled
    refine ⟨⟨⟨_, settled.heap⟩, settled.readings⟩, ?_⟩
    simp only [conclude, finish, settled.output]
    exact .ok
  | fault settled cause blames =>
    refine ⟨⟨⟨_, settled.heap⟩, settled.readings⟩, ?_⟩
    simp only [conclude, finish, settled.output]
    exact .fault cause blames
  | breach lax settled =>
    refine ⟨⟨⟨_, settled.heap⟩, settled.readings⟩, ?_⟩
    simp only [conclude, settled.output]
    exact .breached lax
  | exhausted settled =>
    refine ⟨⟨⟨_, settled.heap⟩, settled.readings⟩, ?_⟩
    simp only [conclude, settled.output]
    exact .exhausted

/-- Where an evaluation starts. -/
theorem start_at (alike : HeapAlike p ν h h') (readings : Nat) :
    At p [] ν [] (.start h readings) (.start h' readings) :=
  ⟨⟨⟨alike, rfl, rfl⟩, rfl, rfl, rfl⟩, .globals, rfl⟩

/-- Alike programs over alike heaps. -/
theorem evaluate_alike {s s' : Session} (left : p.left = s.locals) (right : p.right = s'.locals)
    (limit : s'.limit = s.limit) (follows : Follows p s s') (report report' : Report)
    (alike : Alike p false [] (.stmts report.parsed.statements) (.stmts report'.parsed.statements))
    (clock : Nat → Float) (bound : Nat) :
    Follows p (s.evaluate clock bound report).1 (s'.evaluate clock bound report').1 ∧
      Ending.Alike p [] report report' (s.evaluate clock bound report).2 (s'.evaluate clock bound report').2 := by
  obtain ⟨⟨ν, heap⟩, readings⟩ := follows
  rw [evaluate_eq, evaluate_eq, ← left, ← right, limit, readings]
  exact conclude_alike s s' report report' (execProgram_sim bound alike (start_at heap s.readings))

/-! Runs with other ways to evaluate. -/

/-- What there is before the evaluation: the session with the identities and distances that were used up,
and what was found in the text. -/
def opened (s : Session) (source : Text) : Session × Report :=
  if (s.reading source).readErrors = [] then
    (s.prepared source,
      { s.reading source with scopeErrors := (resolve s.locals (s.program source)).errors })
  else ({ s with lastId := (parse s.lastId (scan source)).lastId }, s.reading source)

theorem opened_heap (s : Session) (source : Text) : (s.opened source).1.heap = s.heap := by
  unfold opened
  split <;> rfl

theorem opened_statements (s : Session) (source : Text) :
    (s.opened source).2.parsed.statements = s.program source := by
  unfold opened
  split <;> rfl

/-- A run that evaluates in its own way. -/
def runBy (evaluate : Session → Report → Session × Ending) (s : Session) (source : Text) : Session × Ending :=
  let (t, report) := s.opened source
  if report.staticErrors = [] then evaluate t report else t.finish report

theorem run_eq_runBy (s : Session) (clock : Nat → Float) (bound : Nat) (source : Text) :
    s.run clock bound source = s.runBy (fun t report => t.evaluate clock bound report) source := by
  unfold runBy opened
  by_cases read : (s.reading source).readErrors = []
  · simp only [if_pos read]
    have static : ({ s.reading source with scopeErrors := (resolve s.locals (s.program source)).errors } :
        Report).staticErrors = (resolve s.locals (s.program source)).errors := by
      rw [Report.staticErrors]
      exact congrArg (· ++ _) read
    by_cases resolved : (resolve s.locals (s.program source)).errors = []
    · rw [run_accepted (accepts_of_read read resolved), if_pos (static.trans resolved), resolved]
      rfl
    · rw [run_unresolved read resolved, if_neg fun none => resolved (static.symm.trans none)]
  · simp only [if_neg read]
    have static : (s.reading source).staticErrors ≠ [] := fun none => read (List.append_eq_nil_iff.1 none).1
    rw [run_unreadable read, if_neg static]

theorem opened_accepted (accepts : s.Accepts source) : s.opened source = (s.prepared source, s.reading source) := by
  have read : (s.reading source).readErrors = [] := (List.append_eq_nil_iff.1 accepts.clean.static).1
  rw [opened, if_pos read, accepts.resolve]
  rfl

theorem opened_rejected (rejects : ¬ s.Accepts source) : (s.opened source).2.staticErrors ≠ [] := by
  intro clean
  unfold opened at clean
  split at clean
  · rename_i read
    exact rejects (accepts_of_read read (List.append_eq_nil_iff.1 clean).2)
  · rename_i unreadable
    exact unreadable (List.append_eq_nil_iff.1 clean).1

theorem runBy_accepted (accepts : s.Accepts source) (evaluate : Session → Report → Session × Ending) :
    s.runBy evaluate source = evaluate (s.prepared source) (s.reading source) := by
  rw [runBy, opened_accepted accepts]
  exact if_pos accepts.clean.static

/-- Programs with static errors are not evaluated, in any way. -/
theorem runBy_rejected (rejects : ¬ s.Accepts source) (evaluate evaluate' : Session → Report → Session × Ending) :
    s.runBy evaluate source = s.runBy evaluate' source := by
  have static := opened_rejected rejects
  unfold runBy
  simp only [if_neg static]

/-! What becomes of identities and distances, however the run ends. -/

theorem run_lastId (s : Session) (clock : Nat → Float) (bound : Nat) (source : Text) :
    (s.run clock bound source).1.lastId = (parse s.lastId (scan source)).lastId := by
  by_cases accepts : s.Accepts source
  · rw [run_accepted accepts, evaluate_eq, conclude_lastId]
    rfl
  · obtain ⟨t, report, ran, -, rfl | ⟨-, rfl⟩⟩ := run_rejected accepts clock bound
    · rw [ran]
      rfl
    · rw [ran]
      rfl

/-- A text is resolved if it can be read. -/
theorem run_locals (s : Session) (clock : Nat → Float) (bound : Nat) (source : Text) :
    (s.run clock bound source).1.locals =
      if (s.reading source).readErrors = [] then (resolve s.locals (s.program source)).locals else s.locals := by
  by_cases read : (s.reading source).readErrors = []
  · rw [if_pos read]
    by_cases resolved : (resolve s.locals (s.program source)).errors = []
    · rw [run_accepted (accepts_of_read read resolved), evaluate_eq, conclude_locals]
      rfl
    · rw [run_unresolved read resolved]
      rfl
  · rw [if_neg read, run_unreadable read]
    rfl

end Session

/-- What a run is given. -/
structure Request where
  clock : Nat → Float
  bound : Nat
  source : Text

namespace Session

def perform (s : Session) (request : Request) : Session × Ending :=
  s.run request.clock request.bound request.source

/-- The session after some runs, one after the other. -/
def after (s : Session) (requests : List Request) : Session :=
  requests.foldl (fun s request => (s.perform request).1) s

end Session
end Lox
