import Lox.Proofs.Evaluation.Moments
import Lox.Proofs.Evaluation.Unwinding
import Lox.Proofs.Session.Runs

/-! Returns in sessions. A program without static errors returns from functions only, so that its run is
the same whether returns are left pending or unwind at once, and in it nothing is done while a return is
pending. -/
namespace Lox

open Evaluation

/-! Resolution lets no program return at top level. -/

mutual

theorem Stmt.stays_of_clean (top : around.function = .topLevel) : (s : Stmt) → (r : Resolver) →
    (s.resolve around r).errors = [] → s.returns = false
  | .block body, _, clean => Stmt.allStay_of_clean top body _ clean
  | .branch _ thenBranch none, _, clean => thenBranch.stays_of_clean top _ clean
  | .branch _ thenBranch (some elseBranch), _, clean => by
    rw [Stmt.returns, Bool.or_eq_false_iff]
    exact ⟨thenBranch.stays_of_clean top _ ((elseBranch.resolve_extends around _).clean clean),
      elseBranch.stays_of_clean top _ clean⟩
  | .loop _ body, _, clean => body.stays_of_clean top _ clean
  | .ret _ none, _, clean => absurd top (Resolver.allowed_of_checkReturn clean).1
  | .ret _ (some e), _, clean =>
    absurd top (Resolver.allowed_of_checkReturn ((e.resolve_extends around _).clean clean)).1
  | .expression _, _, _ | .print _, _, _ | .declare _ none, _, _ | .declare _ (some _), _, _
  | .function _, _, _ | .classDef _ none _, _, _ | .classDef _ (some _) _, _, _ => rfl

theorem Stmt.allStay_of_clean (top : around.function = .topLevel) : (ss : List Stmt) → (r : Resolver) →
    (Stmt.resolveAll around ss r).errors = [] → Stmt.anyReturns ss = false
  | [], _, _ => rfl
  | s :: rest, _, clean => by
    rw [Stmt.anyReturns, Bool.or_eq_false_iff]
    exact ⟨s.stays_of_clean top _ ((Stmt.resolveAll_extends around rest _).clean clean),
      Stmt.allStay_of_clean top rest _ clean⟩

end

namespace Session

theorem opened_stays (s : Session) (source : Text) (static : (s.opened source).2.staticErrors = []) :
    Stmt.anyReturns (s.opened source).2.parsed.statements = false := by
  unfold opened at static ⊢
  split at static
  · rw [if_pos ‹_›]
    have resolved := (List.append_eq_nil_iff.1 static).2
    exact Stmt.allStay_of_clean rfl (s.program source) ⟨[], [], s.locals⟩ resolved
  · rename_i unreadable
    exact absurd (List.append_eq_nil_iff.1 static).1 unreadable

/-- How an evaluation that unwinds returns ends. -/
def unwound : EStateM.Result Signal Machine Unit → EStateM.Result Stop State Unit
  | .ok _ m => .ok () m.idle
  | .error (.returned _) m => .ok () m.idle
  | .error (.stop reason) m => .error reason m.idle

/-- Evaluates a program with returns that unwind. -/
def unwind (clock : Nat → Float) (bound : Nat) (s : Session) (report : Report) : Session × Ending :=
  let run : Unwinding Unit := Hosted.execProgram ⟨s.locals, s.limit, clock⟩ bound report.parsed.statements
  s.conclude report (unwound (run (State.start s.heap s.readings).machine))

/-- A run in which returns unwind. -/
def performUnwinding (s : Session) (request : Request) : Session × Ending :=
  s.runBy (unwind request.clock request.bound) request.source

private theorem conclude_unwound (s : Session) (report : Report) (same : SameValue result result') :
    s.conclude report (unwound result') = s.conclude report result := by
  cases same with
  | ok => rfl
  | @stop reason t => cases reason <;> rfl

private theorem unwind_eq (s : Session) (report : Report) (stays : Stmt.anyReturns report.parsed.statements = false)
    (clock : Nat → Float) (bound : Nat) : s.unwind clock bound report = s.evaluate clock bound report := by
  have same := (unwinding ⟨s.locals, s.limit, clock⟩).execProgram bound stays (.start s.heap s.readings) rfl
  rw [evaluate_eq, ← execProgram_eq]
  exact conclude_unwound s report same

private theorem performUnwinding_eq (s : Session) (request : Request) :
    s.performUnwinding request = s.perform request := by
  rw [perform, run_eq_runBy, performUnwinding]
  simp only [runBy]
  split
  · rename_i static
    exact unwind_eq _ _ (s.opened_stays request.source static) _ _
  · rfl

/-- A run together with its moments. A program with static errors has none. -/
def observe (s : Session) (request : Request) : (Session × Ending) × List Moment :=
  let (t, report) := s.opened request.source
  let evaluation : Traced Unit :=
    Hosted.execProgram ⟨t.locals, t.limit, request.clock⟩ request.bound report.parsed.statements
  let start := State.start t.heap t.readings
  if report.staticErrors = [] then (t.conclude report (evaluation.run start), evaluation.trace start)
  else (t.finish report, [])

theorem opened_limit (s : Session) (source : Text) : (s.opened source).1.limit = s.limit := by
  unfold opened
  split <;> rfl

/-- The evaluation of a program without static errors is disciplined. -/
theorem opened_disciplined (s : Session) (source : Text) (static : (s.opened source).2.staticErrors = [])
    (clock : Nat → Float) (bound : Nat) :
    let ctx : Context := ⟨(s.opened source).1.locals, (s.opened source).1.limit, clock⟩
    Disciplined false (Hosted.execProgram ctx bound (s.opened source).2.parsed.statements)
      (execProgram ctx bound (s.opened source).2.parsed.statements) := by
  intro ctx
  rw [← execProgram_eq]
  exact (discipline ctx).execProgram bound (s.opened_stays source static)

theorem observe_eq (s : Session) (request : Request) : (s.observe request).1 = s.perform request := by
  rw [perform, run_eq_runBy]
  simp only [observe, runBy]
  split
  · rename_i static
    rw [evaluate_eq, (s.opened_disciplined request.source static _ _).run]
  · rfl

theorem observe_sound (s : Session) (request : Request) :
    ∀ moment ∈ (s.observe request).2, moment.Sound := by
  intro moment member
  simp only [observe] at member
  split at member
  · rename_i static
    exact (s.opened_disciplined request.source static request.clock request.bound).sound _ rfl moment member
  · cases member

/-- Runs one after the other, each with the session it leaves. -/
def transcript (run : Session → Request → Session × Ending) : Session → List Request → List (Session × Ending)
  | _, [] => []
  | s, request :: later => run s request :: transcript run (run s request).1 later

/-- A pending return is a return that unwinds. Whatever is run, session by session: to leave a return
pending, to look for it after each statement and to take it at the end of the call has the same results,
with the same output, faults and variables, as to unwind at once to the call. And while a return is
pending no expression or statement is started, no step is made and no call. -/
theorem pending_returns_unwind (s : Session) (requests : List Request) :
    s.transcript performUnwinding requests = s.transcript perform requests ∧
      ∀ request, (s.observe request).1 = s.perform request ∧
        ∀ moment ∈ (s.observe request).2, moment.event.works = true → moment.state.pending = none := by
  refine ⟨?_, fun request => ⟨s.observe_eq request, fun moment member => ?_⟩⟩
  · have same : performUnwinding = perform := funext fun s => funext fun request => s.performUnwinding_eq request
    rw [same]
  · exact s.observe_sound request moment member

/-- A return from a loop in a block: what follows it is passed over while its value is pending. -/
example :
    let run := (new none).observe ⟨fun _ => 0, 20, Text.ofString "fun f() \x7b while (true) \x7b
      \x7b return true; \x7d print nil; \x7d print nil; \x7d print f();"⟩
    run.1.2.stdout = Text.ofString "true\n" ∧ run.2.any (·.state.pending.isSome) = true := by
  decide +kernel

end Session
end Lox
