import Lox.Proofs.Evaluation.Cutoff
import Lox.Proofs.Session.Returns

/-! Limits on the depth of calls in sessions. A limit does nothing but end runs with a stack overflow: a
session in which none overflows is the same, run by run, under every limit that leaves more room. -/
namespace Lox

open Evaluation

/-- The run ended because calls went too deep. -/
def Ending.Overflows (e : Ending) : Prop := e.fault?.map (·.cause) = some .stackOverflow

instance (e : Ending) : Decidable e.Overflows := inferInstanceAs (Decidable (_ = _))

namespace Session

private theorem limitOf_roomier (positive : 0 < low) (room : low ≤ high ∨ high ≤ 0) :
    Roomier (limitOf low) (limitOf high) := by
  intro most limited
  rw [limitOf] at limited
  split at limited
  · rename_i limiting
    cases limited
    refine ⟨low.toNat, if_pos positive, ?_⟩
    omega
  · cases limited

def withLimit (limit : Option Nat) (s : Session) : Session := { s with limit }

variable {limit : Option Nat}

section

variable (limit : Option Nat) (s : Session)

private theorem opened_withLimit (source : Text) :
    (s.withLimit limit).opened source = ((s.opened source).1.withLimit limit, (s.opened source).2) := by
  unfold opened
  by_cases read : (s.reading source).readErrors = []
  · rw [if_pos read]
    exact if_pos read
  · rw [if_neg read]
    exact if_neg read

private theorem conclude_withLimit (report : Report) (result) :
    (s.withLimit limit).conclude report result =
      ((s.conclude report result).1.withLimit limit, (s.conclude report result).2) := by
  unfold conclude
  split <;> rfl

end

/-- An evaluation that overflows is reported as a run that does. -/
theorem conclude_overflows (s : Session) (report : Report) (reached : stop.Overflow) (e : State) :
    (s.conclude report (.error stop e)).2.Overflows := by
  cases stop with
  | fault f => exact congrArg some reached
  | breach | exhausted => cases reached

theorem perform_limit (s : Session) (request : Request) : (s.perform request).1.limit = s.limit := by
  rw [perform, run_eq_runBy, ← s.opened_limit request.source]
  unfold runBy
  by_cases static : (s.opened request.source).2.staticErrors = []
  · simp only [if_pos static]
    exact conclude_limit ..
  · simp only [if_neg static]
    rfl

/-- One run under a roomier limit. -/
theorem perform_withLimit {s : Session} (roomier : Roomier s.limit limit)
    (shallow : ¬ (s.perform request).2.Overflows) :
    (s.withLimit limit).perform request = ((s.perform request).1.withLimit limit, (s.perform request).2) := by
  rw [perform, run_eq_runBy] at shallow
  rw [perform, perform, run_eq_runBy, run_eq_runBy]
  rw [← s.opened_limit request.source] at roomier
  unfold runBy at shallow ⊢
  rw [opened_withLimit]
  generalize s.opened request.source = before at *
  obtain ⟨t, report⟩ := before
  by_cases static : report.staticErrors = []
  · simp only [if_pos static, evaluate_eq] at shallow ⊢
    let ctx : Context := ⟨t.locals, t.limit, request.clock⟩
    have cut := execProgram_cut (evaluation_cut_by_limit (show Roomier ctx.limit limit from roomier) request.bound).2
      report.parsed.statements
    have same := cut.eq (s := .start t.heap t.readings) fun stop e stopped reached => by
      rw [stopped] at shallow
      exact shallow (t.conclude_overflows report reached e)
    rw [← conclude_withLimit, ← same]
    rfl
  · simp only [if_neg static]
    rfl

private theorem transcript_withLimit {s : Session} (roomier : Roomier s.limit limit)
    (shallow : ∀ entry ∈ s.transcript perform requests, ¬ entry.2.Overflows) :
    (s.withLimit limit).transcript perform requests =
      (s.transcript perform requests).map fun entry => (entry.1.withLimit limit, entry.2) := by
  induction requests generalizing s with
  | nil => rfl
  | cons request later ih =>
    have first := perform_withLimit roomier (shallow _ List.mem_cons_self)
    have kept := s.perform_limit request
    have rest := ih (s := (s.perform request).1) (kept ▸ roomier) fun entry member =>
      shallow entry (List.mem_cons_of_mem _ member)
    rw [transcript, transcript, first, List.map_cons]
    exact congrArg _ rest

/-- The depth limit only cuts off. If no run of a session overflows, then the session is the same under any
greater limit and under none, run by run: each run ends alike, with the same verdict, output and faults, and
leaves the same heap with the same globals, the same identities and the same distances. -/
theorem depth_limit_only_cuts_off (low high : Int) (positive : 0 < low) (room : low ≤ high ∨ high ≤ 0)
    (requests : List Request)
    (shallow : ∀ entry ∈ (new (limitOf low)).transcript perform requests, ¬ entry.2.Overflows) :
    (new (limitOf high)).transcript perform requests =
      ((new (limitOf low)).transcript perform requests).map fun (s, ending) =>
        ({ s with limit := limitOf high }, ending) :=
  transcript_withLimit (limitOf_roomier positive room) shallow

/-- Three calls deep under a limit of three: a function of one run, called through a method in the next. -/
theorem depth_limit_only_cuts_off_at_three :
    let requests : List Request :=
      [⟨fun _ => 0, 20, Text.ofString "fun f(x, y) \x7b if (x) return f(y, nil); return y or clock; \x7d"⟩,
        ⟨fun _ => 0, 20, Text.ofString "class C \x7b m() \x7b return f(true, nil); \x7d \x7d print C().m();"⟩]
    (∀ entry ∈ (new (limitOf 3)).transcript perform requests, ¬ entry.2.Overflows) ∧
      (new (limitOf 0)).transcript perform requests =
        ((new (limitOf 3)).transcript perform requests).map fun (s, ending) =>
          ({ s with limit := limitOf 0 }, ending) := by
  intro requests
  have shallow : ∀ entry ∈ (new (limitOf 3)).transcript perform requests, ¬ entry.2.Overflows := by
    decide +kernel
  exact ⟨shallow, depth_limit_only_cuts_off 3 0 (by decide) (.inr (by decide)) requests shallow⟩

/-- A run that goes deeper than the limit is cut off. -/
example : ((new (limitOf 2)).perform
    ⟨fun _ => 0, 20, Text.ofString "fun f() \x7b f(); \x7d f();"⟩).2.Overflows := by
  decide +kernel

end Session
end Lox
