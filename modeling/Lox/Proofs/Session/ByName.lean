import Lox.Proofs.Evaluation.ByName
import Lox.Proofs.Session.Rejection
import Lox.Proofs.Session.Returns
import Lox.Proofs.Session.Safety

/-! Sessions that find variables by name. Resolved distances are not needed for programs in which no variable
passes a scope that declares its name: evaluated by name, such programs do the same, run by run. -/
namespace Lox

open Evaluation Declared

private theorem Mention.Clear.congr (clear : Mention.Clear L m) (same : K[m.node]? = L[m.node]?) : m.Clear K := by
  unfold Mention.Clear Mention.passed at clear ⊢
  rwa [same]

namespace Session

/-- Evaluates a program by name. -/
def evaluateByName (clock : Nat → Float) (bound : Nat) (s : Session) (report : Report) : Session × Ending :=
  s.conclude report
    (ByName.execProgram ⟨s.locals, s.limit, clock⟩ bound report.parsed.statements (.start s.heap s.readings))

/-- A run in which variables are found by name. -/
def performByName (s : Session) (request : Request) : Session × Ending :=
  s.runBy (evaluateByName request.clock request.bound) request.source

/-- No scope between a variable or an assignment and the scope it refers to declares the name, before it or
after it. Nothing is said of `this`. -/
def Unshadowed (s : Session) (source : Text) : Prop :=
  ∀ m ∈ Stmt.mentionsAll [] (s.program source), m.name ≠ Names.this → m.Clear (s.prepared source).locals

instance (s : Session) (source : Text) : Decidable (s.Unshadowed source) :=
  inferInstanceAs (Decidable (∀ m ∈ _, _ → _))

variable {s : Session} {source : Text}

/-- A mention by a known node that is clear. -/
def Legible (s : Session) (m : Mention) : Prop := m.node ≤ s.lastId ∧ m.Clear s.locals

/-- All functions of the session were declared in programs whose mentions are clear. -/
def Readable (s : Session) : Prop := ∃ ν, Orderly s.Legible ν s.heap

private theorem Readable.new (limit : Option Nat) : (Session.new limit).Readable := ⟨_, .initial _⟩

/-- More nodes, whose distances leave those of earlier nodes as they are. -/
theorem Readable.grow (readable : s.Readable) (later : s.lastId ≤ j)
    (keeps : ∀ node, node ≤ s.lastId → L[node]? = s.locals[node]?) :
    Readable { s with lastId := j, locals := L } := by
  obtain ⟨ν, orderly⟩ := readable
  refine ⟨ν, orderly.imp fun m legible => ?_⟩
  exact ⟨Nat.le_trans legible.1 later, legible.2.congr (keeps m.node legible.1)⟩

private theorem Readable.prepared (readable : s.Readable) (source : Text) : (s.prepared source).Readable :=
  readable.grow (Parse.lastId_le_parse ..) fun _ => s.prepared_keeps source

/-- The mentions of an accepted program are clear if no name is shadowed; `this` never is. -/
theorem program_legible (coherent : s.Coherent strict) (accepts : s.Accepts source) (unshadowed : s.Unshadowed source) :
    ∀ m ∈ Stmt.mentionsAll [] (s.program source), (s.prepared source).Legible m := by
  intro m mentioned
  have derived := accepts.derived
  refine ⟨derived.fresh.within _ (Stmt.mentionsAll_among _ _ m mentioned), ?_⟩
  by_cases this : m.name = Names.this
  · have found := coherent.program_scoped accepts
    exact Stmt.thisClearAll .nil _ found (derived.formed (scan_ordinary source)) m mentioned this
  · exact unshadowed m mentioned this

/-- An evaluation without breaches is the same by name. -/
theorem conclude_agree (agree : Agree s.Legible ν e result result') (report : Report)
    (unbroken : (s.conclude report result).2.breach? = none) :
    result' = result ∧ (s.conclude report result).1.Readable := by
  cases agree with
  | ok _ heap => exact ⟨rfl, _, heap⟩
  | @stopped _ _ stop _ heap =>
    refine ⟨rfl, ?_⟩
    cases stop with
    | fault | breach | exhausted => exact ⟨_, heap⟩
  | breached => cases unbroken

/-- One run by name. -/
theorem performByName_eq (coherent : s.Coherent True) (readable : s.Readable) (request : Request)
    (plain : s.Accepts request.source → Spared (s.program request.source) ∧ s.Unshadowed request.source) :
    s.performByName request = s.perform request ∧ (s.perform request).1.Coherent True ∧
      (s.perform request).1.Readable := by
  obtain ⟨clock, bound, source⟩ := request
  by_cases accepts : s.Accepts source
  · obtain ⟨spared, unshadowed⟩ := plain accepts
    obtain ⟨kept, unbroken⟩ := coherent.run (fun _ => spared) clock bound
    have unbroken := unbroken trivial
    obtain ⟨ν, orderly⟩ := readable.prepared source
    let ctx : Context := ⟨(s.prepared source).locals, (s.prepared source).limit, clock⟩
    have clear : ∀ m, (s.prepared source).Legible m → m.Clear ctx.locals := fun _ legible => legible.2
    have agree := execProgram_agrees clear bound (program_legible coherent accepts unshadowed) ν
      (.start (s.prepared source).heap (s.prepared source).readings) ⟨orderly, .globals⟩
    rw [run_accepted accepts, evaluate_eq] at unbroken
    obtain ⟨same, left⟩ := conclude_agree agree (s.reading source) unbroken
    refine ⟨?_, kept, ?_⟩
    · rw [performByName, runBy_accepted accepts, perform, run_accepted accepts, evaluate_eq, evaluateByName]
      exact congrArg _ same
    · rw [perform, run_accepted accepts, evaluate_eq]
      exact left
  · refine ⟨?_, coherent.rejected accepts clock bound, ?_⟩
    · rw [performByName, perform, run_eq_runBy]
      exact runBy_rejected accepts _ _
    · obtain ⟨t, report, ran, -, state⟩ := run_rejected accepts clock bound
      rw [perform, ran]
      rcases state with rfl | ⟨-, rfl⟩
      · exact readable.grow (Parse.lastId_le_parse ..) fun _ _ => rfl
      · exact readable.prepared source

/-- Something holds of every program that is run, in the session that it is run in. -/
def Throughout (allowed : Session → Text → Prop) : Session → List Request → Prop
  | _, [] => True
  | s, request :: later => allowed s request.source ∧ Throughout allowed (s.perform request).1 later

private theorem transcript_byName (coherent : s.Coherent True) (readable : s.Readable) (requests : List Request)
    (plain : s.Throughout (fun s source => s.Accepts source → Spared (s.program source) ∧ s.Unshadowed source)
      requests) : s.transcript performByName requests = s.transcript perform requests := by
  induction requests generalizing s with
  | nil => rfl
  | cons request later ih =>
    obtain ⟨first, others⟩ := plain
    obtain ⟨same, coherent, readable⟩ := performByName_eq coherent readable request first
    rw [transcript, transcript, same]
    exact congrArg _ (ih coherent readable others)

/-- Names lead where distances do. Let no accepted program assign to a local variable in its own initializer, and
let no scope between a variable or an assignment and the scope it refers to declare its name, be it further on.
Then to look for all variables by name, from the current scope outwards, has the same results as to go by
distances: run by run the same verdict, output and faults, and the same globals. -/
theorem lookups_by_name_agree (limit : Option Nat) (requests : List Request)
    (plain : (new limit).Throughout
      (fun s source => s.Accepts source → Spared (s.program source) ∧ s.Unshadowed source) requests) :
    (new limit).transcript performByName requests = (new limit).transcript perform requests :=
  transcript_byName (.new True limit) (.new limit) requests plain

/-- Closures, methods and `super`, with names that are used again where no mention passes them. -/
theorem lookups_by_name_agree_in_closures :
    let requests : List Request :=
      [⟨fun _ => 0, 30, Text.ofString "var a; fun f(x) \x7b fun g() \x7b return x; \x7d x = a or f; return g; \x7d
          class A \x7b m(f) \x7b a = f; return this; \x7d \x7d"⟩,
        ⟨fun _ => 0, 30, Text.ofString "class B < A \x7b m(a) \x7b return super.m(a); \x7d \x7d
          \x7b var a = B().m(f); \x7b var b = a; \x7b var a = f(nil); print a(); print b; \x7d \x7d \x7d"⟩]
    (new none).Throughout (fun s source => s.Accepts source → Spared (s.program source) ∧ s.Unshadowed source)
        requests ∧
      (new none).transcript performByName requests = (new none).transcript perform requests := by
  intro requests
  have plain : (new none).Throughout
      (fun s source => s.Accepts source → Spared (s.program source) ∧ s.Unshadowed source) requests :=
    ⟨fun _ => ⟨by decide +kernel, by decide +kernel⟩, fun _ => ⟨by decide +kernel, by decide +kernel⟩, trivial⟩
  exact ⟨plain, lookups_by_name_agree none requests plain⟩

/-- The exception: a function that has passed a scope before the scope declares the name. -/
example :
    let request : Request := ⟨fun _ => 0, 20, Text.ofString "\x7b var a = true;
      \x7b fun f() \x7b print a; \x7d var a = nil; f(); \x7d \x7d"⟩
    ((new none).perform request).2.stdout = Text.ofString "true\n" ∧
      ((new none).performByName request).2.stdout = Text.ofString "nil\n" := by
  decide +kernel

end Session
end Lox
