import Lox.Proofs.Evaluation.ByHand
import Lox.Proofs.Session.Super

/-! The registers of the evaluator between runs. An interpreter that keeps them from one run to the next, sets them by
hand and puts them back itself only after a fault, finds them idle again after every run that comes to its end: at the
globals, outside all calls, with no return under way. That is why a run can start from fresh registers.

This is about the interpreters that are reached by runs with a verdict. On those an interpreter and its session do the
same. After a breach, or when the bound is used up, the registers stay as they are, while the next run of a session
starts from fresh ones; so nothing is said of what is run then. -/
namespace Lox

open Evaluation

/-- A session with the registers that the last run has left. -/
structure Interpreter where
  session : Session
  registers : Manual.Registers

namespace Interpreter

/-- The registers after an evaluation. A fault passes over all that would have put them back, and so each of them is put
back here. -/
def settle : EStateM.Result Stop Manual.State Unit → Manual.Registers
  | .ok _ m => m.registers
  | .error (.fault _) _ => .idle
  | .error (.breach _) m => m.registers
  | .error .exhausted m => m.registers

def viewed : EStateM.Result Stop Manual.State Unit → EStateM.Result Stop State Unit
  | .ok _ m => .ok () m.view
  | .error stop m => .error stop m.view

/-- Evaluates a program from the registers as they are. -/
def evaluate (i : Interpreter) (request : Request) : EStateM.Result Stop Manual.State Unit :=
  let (t, report) := i.session.opened request.source
  let evaluation : Manual Unit :=
    Hosted.execProgram (i.session.context request) request.bound report.parsed.statements
  evaluation ⟨t.heap, i.registers, #[], t.readings, [i.registers]⟩

/-- A run that starts from the registers as they are. -/
def perform (i : Interpreter) (request : Request) : Interpreter × Ending :=
  let (t, report) := i.session.opened request.source
  if report.staticErrors = [] then
    let result := i.evaluate request
    let (u, ending) := t.conclude report (viewed result)
    (⟨u, settle result⟩, ending)
  else
    let (u, ending) := t.finish report
    (⟨u, i.registers⟩, ending)

/-- All registers there are during a run. -/
def during (i : Interpreter) (request : Request) : List Manual.Registers :=
  if (i.session.opened request.source).2.staticErrors = [] then (last (i.evaluate request)).past else [i.registers]

/-- The interpreters that runs lead to, as long as each comes to its end. -/
inductive Reachable : Interpreter → Prop where
  | new (limit : Option Nat) : Reachable ⟨.new limit, .idle⟩
  | run {i : Interpreter} (before : Reachable i) (request : Request)
      (ended : (i.perform request).2.verdict?.isSome = true) : Reachable (i.perform request).1
  | reset {i : Interpreter} (before : Reachable i) : Reachable ⟨i.session.reset, .idle⟩

variable {i : Interpreter} {s : Session}

private theorem viewed_eq (same : Manual.Same result result') : viewed result = result' := by
  cases same with
  | ok mirrors => exact congrArg (EStateM.Result.ok ()) mirrors.view
  | error mirrors => exact congrArg (EStateM.Result.error _) mirrors.view

/-- At every moment of a run there is the scope in which it is. -/
theorem housed (founded : s.Founded past) (request : Request) : Manual.Housed (s.observe request).2 :=
  fun moment member => ((founded.walk (Session.accepts_of_moment member)).proper moment member).inside

/-- The evaluation of a program without static errors keeps to the rules. -/
theorem evaluation_keeps (s : Session) (request : Request) (static : (s.opened request.source).2.staticErrors = []) :
    Manual.Keeps (s.context request) false
      (Hosted.execProgram (s.context request) request.bound (s.opened request.source).2.parsed.statements) :=
  ((byHand _).execProgram request.bound (s.opened_stays request.source static)).1

/-- From idle registers evaluation by hand is evaluation. -/
theorem viewed_evaluate (founded : s.Founded past) (request : Request)
    (static : (s.opened request.source).2.staticErrors = []) :
    viewed (evaluate ⟨s, .idle⟩ request) = execProgram (s.context request) request.bound
      (s.opened request.source).2.parsed.statements
      (.start (s.opened request.source).1.heap (s.opened request.source).1.readings) := by
  have housed := housed founded request
  simp only [Session.observe, if_pos static] at housed
  have disciplined := s.opened_disciplined request.source static request.clock request.bound
  have follows := ((byHand (s.context request)).execProgram request.bound (s.opened_stays request.source static)).2
  exact (viewed_eq (follows _ _ ⟨rfl, rfl, rfl, rfl, rfl, rfl, rfl⟩ housed)).trans (congrFun disciplined.run _)

/-- A disciplined evaluation puts the registers back itself. -/
theorem settle_eq {t : Session} (s : Session) (request : Request)
    (static : (s.opened request.source).2.staticErrors = [])
    (ended : (t.conclude report (viewed (evaluate ⟨s, .idle⟩ request))).2.verdict?.isSome = true) :
    settle (evaluate ⟨s, .idle⟩ request) = .idle := by
  have keeps := evaluation_keeps s request static
  cases ran : evaluate ⟨s, .idle⟩ request with
  | ok _ m =>
    obtain ⟨scope, depth⟩ := keeps.settled ran
    obtain ⟨returning, value⟩ := keeps.quiet rfl ran ⟨rfl, rfl⟩
    show (⟨m.registers.scope, m.registers.depth, m.registers.returning, m.registers.value⟩ : Manual.Registers) = .idle
    rw [scope, depth, returning, value]
    rfl
  | error stop m =>
    rw [ran] at ended
    cases stop with
    | fault f => rfl
    | breach | exhausted => cases ended

/-- From idle registers a run is the run of the session, and if it comes to its end they are idle again. -/
theorem perform_idle (founded : s.Founded past) (request : Request) :
    let run := perform ⟨s, .idle⟩ request
    (run.1.session, run.2) = s.perform request ∧
      (run.2.verdict?.isSome = true → run.1.registers = .idle) := by
  rw [Session.perform, Session.run_eq_runBy]
  simp only [perform, Session.runBy]
  split
  · rename_i static
    refine ⟨?_, settle_eq s request static⟩
    rw [viewed_evaluate founded request static]
    rfl
  · exact ⟨rfl, fun _ => rfl⟩

/-- What is reached has idle registers, and its session has been reached by runs. -/
theorem Reachable.idle (reachable : Reachable i) : i.registers = .idle ∧ ∃ past, i.session.Lived past := by
  induction reachable with
  | new limit => exact ⟨rfl, [], .new limit⟩
  | @run i before request ended ih =>
    obtain ⟨session, registers⟩ := i
    obtain ⟨rfl, past, lived⟩ := ih
    obtain ⟨same, idle⟩ := perform_idle lived.founded request
    refine ⟨idle ended, past ++ session.record request, ?_⟩
    have kept : (perform ⟨session, .idle⟩ request).1.session = (session.perform request).1 := congrArg Prod.fst same
    rw [kept]
    exact .run lived request
  | reset before ih =>
    obtain ⟨-, past, lived⟩ := ih
    exact ⟨rfl, [], .reset lived⟩

/-- The depth stays within its bounds, whatever a run comes to. -/
theorem during_bounded (s : Session) (request : Request) :
    ∀ r ∈ during ⟨s, .idle⟩ request, Manual.InBounds s.limit r.depth := by
  have limit : (s.context request).limit = s.limit := s.opened_limit request.source
  have start : Manual.InBounds s.limit Manual.Registers.idle.depth := ⟨Int.le_refl 0, fun n _ => Int.natCast_nonneg n⟩
  intro r member
  simp only [during] at member
  split at member
  · rename_i static
    rw [← limit] at start ⊢
    rcases (evaluation_keeps s request static).bounded _ start r member with before | inside
    · exact List.mem_singleton.1 before ▸ start
    · exact inside
  · exact List.mem_singleton.1 member ▸ start

/-- The registers are kept in order, although each is set and put back by hand. Every expression and every statement
that comes to its end leaves the scope and the depth as they were, and an expression leaves no return. In every run the
depth is at least zero and within its limit, from beginning to end. So after all runs that have come to their end,
whatever they were, the registers are idle, and the run is as if it had started from fresh ones. -/
theorem registers_are_kept_in_order (reachable : Reachable i) (request : Request) :
    (∀ ctx n e m v m', (Hosted.evalExpr ctx n e : Manual Value) m = .ok v m' →
      m'.registers.scope = m.registers.scope ∧ m'.registers.depth = m.registers.depth ∧
      (m.registers.Quiet → m'.registers.Quiet)) ∧
    (∀ ctx n stmt m m', (Hosted.execStmt ctx n stmt : Manual Unit) m = .ok () m' →
      m'.registers.scope = m.registers.scope ∧ m'.registers.depth = m.registers.depth) ∧
    (∀ r ∈ i.during request, 0 ≤ r.depth ∧ ∀ n : Nat, i.session.limit = some n → r.depth ≤ n) ∧
    ((i.perform request).1.session, (i.perform request).2) = i.session.perform request ∧
    ((i.perform request).2.verdict?.isSome = true → (i.perform request).1.registers = .idle) := by
  obtain ⟨idle, past, lived⟩ := reachable.idle
  obtain ⟨session, registers⟩ := i
  subst idle
  refine ⟨?_, ?_, during_bounded session request, perform_idle lived.founded request⟩
  · intro ctx n e m v m' ran
    have keeps := (((byHand ctx).evaluation n).1 e).1
    obtain ⟨scope, depth⟩ := keeps.settled ran
    exact ⟨scope, depth, keeps.quiet rfl ran⟩
  · intro ctx n stmt m m' ran
    exact (((byHand ctx).evaluation n).2 true stmt fun _ => rfl).1.settled ran

/-- Two calls deep, a method of a class with a superclass faults inside a block. The next run finds the registers idle,
goes into the scope of another subclass and into calls, and leaves the registers idle. -/
theorem registers_are_kept_in_order_after_fault :
    let faulty : Request := ⟨fun _ => 0, 30, Text.ofString "class A \x7b \x7d class B < A \x7b f(x) \x7b
      \x7b var y = x; return y.z; \x7d \x7d \x7d fun g(x) \x7b return B().f(x); \x7d g(nil);"⟩
    let next : Request := ⟨fun _ => 0, 30, Text.ofString "class C < B \x7b \x7d
      fun h(x) \x7b while (x) \x7b return C; \x7d \x7d print h(true);"⟩
    let i := (perform ⟨.new (some 2), .idle⟩ faulty).1
    (i.session.diagnostics.length = 1 ∧ (i.perform next).2.verdict? = some .ok) ∧
      ((i.during next).any (·.scope ≠ Heap.globals) ∧ (i.during next).any (·.depth = 1)) ∧
      (i.perform next).1.registers = .idle := by
  intro faulty next i
  have faulted : i.session.diagnostics.length = 1 := by decide +kernel
  have ok : (i.perform next).2.verdict? = some .ok := by decide +kernel
  have moved : (i.during next).any (·.scope ≠ Heap.globals) ∧ (i.during next).any (·.depth = 1) := by decide +kernel
  have reachable : Reachable i := .run (.new (some 2)) faulty (by decide +kernel)
  exact ⟨⟨faulted, ok⟩, moved, (registers_are_kept_in_order reachable next).2.2.2.2 (ok ▸ rfl)⟩

end Interpreter
end Lox
