import Lox.Proofs.Evaluation.Termination
import Lox.Proofs.Session.Limits
import Lox.Proofs.Session.Safety

/-! Termination of runs. Under a limit on the depth of calls a program without loops comes to its end,
as long as what was run before has left no loops in functions and methods either. -/
namespace Lox

open Evaluation

/-- Whether a run came to its end: with a verdict, or where an assumption about resolved names failed. -/
def Ending.complete : Ending → Bool
  | .finished _ | .breached .. => true
  | .exhausted _ => false

namespace Session

/-- No statement of the program is a loop, nor is any in its functions. -/
def LoopFree (ss : List Stmt) : Prop := Stmt.anyLoops ss = false

instance (ss : List Stmt) : Decidable (LoopFree ss) := inferInstanceAs (Decidable (_ = _))

/-- Its statements are no larger than the whole. -/
theorem LoopFree.brief (free : LoopFree ss) (stmt : Stmt) (member : stmt ∈ ss) :
    stmt.loops = false ∧ sizeOf stmt ≤ sizeOf ss :=
  ⟨Stmt.loops_of_mem free member, Nat.le_of_lt (List.sizeOf_lt_of_mem member)⟩

private theorem conclude_ended (s : Session) (report : Report) (ended : Ended P k enough result) :
    (s.conclude report result).1.heap.Holds P ∧ (enough → (s.conclude report result).2.complete = true) := by
  cases ended with
  | ok holds => exact ⟨holds, fun _ => rfl⟩
  | @stopped stop e holds left =>
    cases stop with
    | fault | breach => exact ⟨holds, fun _ => rfl⟩
    | exhausted => exact ⟨holds, fun given => absurd given (left rfl)⟩

variable {s : Session} {depth : Nat} {source : Text}

/-- What a run needs, and what it leaves. -/
theorem run_ends (holds : s.heap.Holds (FunctionDecl.Brief most)) (limited : s.limit = some depth)
    (brief : ∀ stmt ∈ s.program source, stmt.loops = false ∧ sizeOf stmt ≤ most) (clock : Nat → Float) (bound : Nat) :
    (s.run clock bound source).1.heap.Holds (FunctionDecl.Brief most) ∧
      (reserve depth most 0 + most ≤ bound → (s.run clock bound source).2.complete = true) := by
  rw [← s.opened_statements] at brief
  rw [← s.opened_limit source] at limited
  rw [← s.opened_heap source] at holds
  rw [run_eq_runBy]
  unfold runBy
  by_cases static : (s.opened source).2.staticErrors = []
  · simp only [if_pos static]
    exact conclude_ended _ _ (execProgram_ends limited brief bound _ holds rfl)
  · simp only [if_neg static]
    exact ⟨holds, fun _ => rfl⟩

/-- A run that has come to its end within a bound is the same within any greater one. -/
theorem run_of_complete (complete : (s.run clock n source).2.complete = true) (less : n ≤ m) :
    s.run clock m source = s.run clock n source := by
  rw [run_eq_runBy, run_eq_runBy]
  rw [run_eq_runBy] at complete
  unfold runBy at complete ⊢
  by_cases static : (s.opened source).2.staticErrors = []
  · simp only [if_pos static, evaluate_eq] at complete ⊢
    have cut := execProgram_cut_by_bound ⟨(s.opened source).1.locals, (s.opened source).1.limit, clock⟩
      (s.opened source).2.parsed.statements less
    rw [cut.eq fun stop e stopped used => ?_]
    rw [stopped, used] at complete
    cases complete
  · simp only [if_neg static]

/-- A program may be larger than what was run before it. -/
theorem run_ends_within (holds : s.heap.Holds (FunctionDecl.Brief most)) (limited : s.limit = some depth)
    (free : LoopFree (s.program source)) :
    ∃ more, ∀ clock bound, (s.run clock bound source).1.heap.Holds (FunctionDecl.Brief more) ∧
      (reserve depth more 0 + more ≤ bound → (s.run clock bound source).2.complete = true) := by
  have held : s.heap.Holds (FunctionDecl.Brief (max most (sizeOf (s.program source)))) :=
    holds.imp fun brief => brief.mono (Nat.le_max_left ..)
  refine ⟨_, run_ends held limited fun stmt member => ?_⟩
  obtain ⟨here, small⟩ := free.brief stmt member
  exact ⟨here, Nat.le_trans small (Nat.le_max_right ..)⟩

/-- However many runs there were, there is a limit to the bodies of the functions they have left. -/
theorem Reachable.brief (reachable : Reachable LoopFree s) (limited : s.limit = some depth) :
    ∃ most, s.heap.Holds (FunctionDecl.Brief most) := by
  induction reachable with
  | new | reset => exact ⟨0, .initial fun _ member => by cases member⟩
  | @run s _ clock bound source free ih =>
    have kept : (s.run clock bound source).1.limit = s.limit := s.perform_limit ⟨clock, bound, source⟩
    rw [kept] at limited
    obtain ⟨most, holds⟩ := ih limited
    obtain ⟨more, ends⟩ := run_ends_within holds limited free
    exact ⟨more, (ends clock bound).1⟩

/-- Termination without loops. In a session with a limit on the depth of calls, in which nothing with a loop
was run before, a program without loops comes to its end whatever functions, methods, initializers and
superclasses call each other: from some bound on, the run is the same and has an ending of its own. -/
theorem loop_free_runs_terminate (reachable : Reachable LoopFree s) (limited : s.limit = some depth)
    (source : Text) (free : LoopFree (s.program source)) :
    ∃ enough, ∀ clock, ∃ t ending, ending.complete = true ∧
      ∀ bound, enough ≤ bound → s.run clock bound source = (t, ending) := by
  obtain ⟨most, holds⟩ := reachable.brief limited
  obtain ⟨more, ends⟩ := run_ends_within holds limited free
  refine ⟨reserve depth more 0 + more, fun clock => ?_⟩
  have complete := (ends clock _).2 (Nat.le_refl _)
  exact ⟨_, _, complete, fun bound enough => run_of_complete complete enough⟩

/-- Construction, methods and `super` that call each other without end: the second run overflows. -/
theorem loop_free_runs_terminate_in_recursion :
    let first := Text.ofString "class A \x7b init(f) \x7b this.m(f); \x7d m(f) \x7b return f(f); \x7d \x7d"
    let second := Text.ofString "class B < A \x7b m(f) \x7b return super.m(f); \x7d \x7d B(B);"
    let s := ((new (limitOf 9)).run (fun _ => 0) 20 first).1
    LoopFree ((new (limitOf 9)).program first) ∧ s.limit = some 9 ∧ LoopFree (s.program second) ∧
      ∃ enough, ∀ clock, ∃ t ending, ending.complete = true ∧
        ∀ bound, enough ≤ bound → s.run clock bound second = (t, ending) := by
  intro first second s
  have before : LoopFree ((new (limitOf 9)).program first) := by decide +kernel
  have limited : s.limit = some 9 := by decide +kernel
  have free : LoopFree (s.program second) := by decide +kernel
  exact ⟨before, limited, free,
    loop_free_runs_terminate (.run (.new _) _ _ first before) limited second free⟩

end Session
end Lox
