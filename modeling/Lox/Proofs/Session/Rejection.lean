import Lox.Proofs.Evaluation.Renumbering
import Lox.Proofs.Resolution.Visits
import Lox.Proofs.Session.Safety

/-! A program with static errors leaves no trace. It prints nothing and changes no variable; it uses up
identities, so that the nodes of all later programs are numbered further up, and may leave distances
behind. Nothing that later runs let one see depends on either. -/
namespace Lox

open Likeness

/-- What a run lets one see. The diagnostics are those of the run, if it comes to its end. -/
structure Answer where
  verdict : Option Verdict
  breach : Option Breach
  stdout : Text
  stderr : Text
  errorText : Option Text
  globals : List (Text × Text)

namespace Session

variable {s s' : Session} {request : Request} {base δ : Nat}

def answer (s : Session) (request : Request) : Answer :=
  let (t, e) := s.perform request
  ⟨e.verdict?, e.breach?, e.stdout, e.stderr, e.verdict?.bind fun _ => t.errorText, t.globals⟩

/-- What runs let one see, one after the other. -/
def answers : Session → List Request → List Answer
  | _, [] => []
  | s, request :: later => s.answer request :: (s.perform request).1.answers later

/-- A run that comes to its end leaves its own diagnostics. -/
theorem run_diagnostics {report : Report} (ran : (s.run clock bound source).2 = .finished report) :
    (s.run clock bound source).1.diagnostics = report.diagnostics := by
  by_cases read : (s.reading source).readErrors = []
  · by_cases resolved : (resolve s.locals (s.program source)).errors = []
    · rw [run_accepted (accepts_of_read read resolved), evaluate_eq] at ran ⊢
      unfold conclude at ran ⊢
      split at ran
      · cases ran
        rfl
      · cases ran
        rfl
      · cases ran
      · cases ran
    · rw [run_unresolved read resolved] at ran ⊢
      cases ran
      rfl
  · rw [run_unreadable read] at ran ⊢
    cases ran
    rfl

/-- The same is seen of runs that end the same way. -/
theorem answer_congr (verdict : (s'.perform request).2.verdict? = (s.perform request).2.verdict?)
    (breach : (s'.perform request).2.breach? = (s.perform request).2.breach?)
    (output : (s'.perform request).2.output = (s.perform request).2.output)
    (complaints : (s'.perform request).2.complaints = (s.perform request).2.complaints)
    (globals : (s'.perform request).1.globals = (s.perform request).1.globals) :
    s'.answer request = s.answer request := by
  have errorText : ∀ s : Session, ((s.perform request).2.verdict?.bind fun _ => (s.perform request).1.errorText) =
      if (s.perform request).2.complaints = [] then none
      else some ((Text.ofString "; ").intercalate (s.perform request).2.complaints) := by
    intro s
    cases ending : (s.perform request).2 with
    | finished report =>
      have own : (s.perform request).1.diagnostics = report.diagnostics := run_diagnostics ending
      simp only [Ending.verdict?, Option.bind_some, Session.errorText, own, Ending.complaints,
        List.isEmpty_iff, List.map_eq_nil_iff]
    | breached | exhausted => rfl
  simp only [answer, errorText, Ending.stdout, Ending.stderr_eq]
  rw [verdict, breach, output, complaints, globals]

/-- Resolution leaves the distances of earlier nodes as they are, also if it finds errors. -/
theorem prepared_keeps (s : Session) (source : Text) {node : NodeId} (earlier : node ≤ s.lastId) :
    (s.prepared source).locals[node]? = s.locals[node]? := by
  refine (Stmt.resolveAll_extends _ _ _).others node fun member => ?_
  exact absurd ((Parse.parse_fresh s.lastId (scan source)).above node member) (Nat.not_lt.2 earlier)

/-! Sessions that differ by a shift of identities. -/

/-- The pairing of the nodes of two sessions, in the second of which those above `base` are further up. -/
def shift (base δ : Nat) (s s' : Session) : Pairing :=
  ⟨s.locals, s'.locals, fun i j => j = moved base δ i ∧ i ≤ s.lastId, fun name other => other = name, False⟩

/-- Sessions that differ by what a faulty program has used up. -/
structure Shifted (base δ : Nat) (s s' : Session) : Prop where
  above : base ≤ s.lastId
  lastId : s'.lastId = s.lastId + δ
  limit : s'.limit = s.limit
  locals : s.locals.Follows (moved base δ) s'.locals
  follows : Follows (shift base δ s s') s s'

namespace Shifted

private theorem parsed (shifted : Shifted base δ s s') (source : Text) :
    parse s'.lastId (scan source) = ⟨Stmt.renumberAll (moved base δ) (s.program source),
      (parse s.lastId (scan source)).errors, (parse s.lastId (scan source)).lastId + δ⟩ := by
  rw [shifted.lastId]
  exact Parse.parse_ahead s.lastId (scan source) shifted.above δ

private theorem program (shifted : Shifted base δ s s') (source : Text) :
    s'.program source = Stmt.renumberAll (moved base δ) (s.program source) := by
  rw [Session.program, shifted.parsed]

private theorem readErrors (shifted : Shifted base δ s s') (source : Text) :
    (s'.reading source).readErrors = (s.reading source).readErrors := by
  simp only [Report.readErrors, reading, shifted.parsed]

private theorem resolved (shifted : Shifted base δ s s') (source : Text) :
    (resolve s'.locals (s'.program source)).errors = (resolve s.locals (s.program source)).errors ∧
      (resolve s.locals (s.program source)).locals.Follows (moved base δ)
        (resolve s'.locals (s'.program source)).locals := by
  rw [shifted.program]
  exact resolve_renumber (moved_injective base δ) shifted.locals (s.program source)

/-- More nodes of the same programs. -/
theorem grow (shifted : Shifted base δ s s') (later : s.lastId ≤ j)
    (keeps : ∀ node, node ≤ s.lastId → L[node]? = s.locals[node]?) (follows : L.Follows (moved base δ) L') :
    Shifted base δ { s with lastId := j, locals := L } { s' with lastId := j + δ, locals := L' } := by
  refine ⟨Nat.le_trans shifted.above later, rfl, shifted.limit, follows, ?_, shifted.follows.readings⟩
  obtain ⟨ν, heap⟩ := shifted.follows.heap
  refine ⟨ν, HeapAlike.widen (p := shift base δ s s') ⟨?_, ?_, ?_, id, id⟩ heap⟩
  · rintro i j ⟨same, old⟩
    exact ⟨same, Nat.le_trans old later⟩
  · rintro i j ⟨-, old⟩
    exact keeps i old
  · rintro i j ⟨rfl, old⟩
    exact (follows i).trans ((keeps i old).trans (shifted.locals i).symm)

private theorem prepared (shifted : Shifted base δ s s') (source : Text) :
    Shifted base δ (s.prepared source) (s'.prepared source) := by
  have grown := shifted.grow (Parse.lastId_le_parse s.lastId (scan source))
    (fun node => prepared_keeps s source) (shifted.resolved source).2
  rwa [Session.prepared, Session.prepared, shifted.parsed source]

private theorem finish (shifted : Shifted base δ s s') (report report' : Report) :
    Shifted base δ (s.finish report).1 (s'.finish report').1 :=
  ⟨shifted.above, shifted.lastId, shifted.limit, shifted.locals, shifted.follows.heap, shifted.follows.readings⟩

/-- What the faulty text leaves behind. -/
theorem left (coherent : s.Coherent False) (keeps : ∀ node, node ≤ s.lastId → L[node]? = s.locals[node]?)
    (old : ∀ node d, L[node]? = some d → node ≤ s.lastId + δ) :
    Shifted s.lastId δ s { s with lastId := s.lastId + δ, locals := L, diagnostics := found } := by
  have follows : s.locals.Follows (moved s.lastId δ) L := by
    intro node
    by_cases earlier : node ≤ s.lastId
    · rw [moved, if_pos earlier, keeps node earlier]
    · have unknown : s.locals[node]? = none := Option.eq_none_iff_forall_ne_some.2 fun d known =>
        earlier (coherent.old node d known)
      rw [moved, if_neg earlier, unknown]
      refine Option.eq_none_iff_forall_ne_some.2 fun d known => earlier ?_
      exact Nat.le_of_add_le_add_right (old _ d known)
  refine ⟨Nat.le_refl _, rfl, rfl, follows, ?_, rfl⟩
  obtain ⟨ν, heap⟩ := coherent.heap
  refine ⟨ν, HeapAlike.widen (p := pairing (.onLines s.locals id) s.lastId False)
    ⟨?_, fun _ => rfl, ?_, Respelling.respells_onLines, id⟩ heap⟩
  · rintro i j ⟨rfl, old⟩
    exact ⟨(if_pos old).symm, old⟩
  · rintro i j ⟨rfl, old⟩
    exact keeps i old

private theorem accepts (shifted : Shifted base δ s s') (accepts : s.Accepts source) : s'.Accepts source := by
  refine ⟨accepts.scan, ?_, (shifted.resolved source).1.trans accepts.resolve⟩
  rw [shifted.parsed]
  exact accepts.parse

/-- A program and the same program further up are alike. -/
theorem program_alike (shifted : Shifted base δ s s') (coherent : s.Coherent False)
    (accepts : s.Accepts source) : Alike (shift base δ (s.prepared source) (s'.prepared source)) false []
      (.stmts (s.program source)) (.stmts (s'.program source)) := by
  have respelled := Stmt.respelled_same (.onLines (s.prepared source).locals id) rfl (s.program source)
  have alike := coherent.program_alike accepts respelled nofun
  have moves : (pairing (.onLines (s.prepared source).locals id) (s.prepared source).lastId False).Moves
      (moved base δ) (shift base δ (s.prepared source) (s'.prepared source)) := by
    refine ⟨?_, fun _ => rfl, ?_, Respelling.respells_onLines, id⟩
    · rintro i j ⟨rfl, old⟩
      exact ⟨rfl, old⟩
    · rintro i j ⟨rfl, -⟩
      exact (shifted.prepared source).locals i
  rw [shifted.program]
  exact alike.renumber moves

private theorem conclude (shifted : Shifted base δ s s') (follows : Follows (shift base δ s s')
      (s.conclude report result).1 (s'.conclude report' result').1) :
    Shifted base δ (s.conclude report result).1 (s'.conclude report' result').1 := by
  constructor
  · rw [conclude_lastId]
    exact shifted.above
  · rw [conclude_lastId, conclude_lastId]
    exact shifted.lastId
  · rw [conclude_limit, conclude_limit]
    exact shifted.limit
  · rw [conclude_locals, conclude_locals]
    exact shifted.locals
  · rw [shift, conclude_lastId, conclude_locals, conclude_locals]
    exact follows

/-- Runs that end before evaluation, with the same errors. -/
theorem rejected {t t' : Session} {report report' : Report} (shifted : Shifted base δ t t')
    (ran : s.perform request = t.finish report) (ran' : s'.perform request = t'.finish report')
    (errors : report'.staticErrors = report.staticErrors) (fault : report'.fault = report.fault)
    (output : report'.output = report.output) :
    Shifted base δ (s.perform request).1 (s'.perform request).1 ∧ s'.answer request = s.answer request := by
  constructor
  · rw [ran, ran']
    exact shifted.finish report report'
  · have diagnostics : report'.diagnostics = report.diagnostics := by
      rw [Report.diagnostics, Report.diagnostics, errors, fault]
    have verdict : report'.verdict = report.verdict := by
      rw [Report.verdict, Report.verdict, errors, fault]
    refine answer_congr ?_ ?_ ?_ ?_ ?_
    · rw [ran, ran']
      exact congrArg some verdict
    · rw [ran, ran']
      rfl
    · rw [ran, ran']
      exact output
    · rw [ran, ran']
      exact congrArg (List.map _) diagnostics
    · rw [ran, ran']
      exact shifted.follows.globals

/-- A run leaves such sessions as they are, and they answer alike. -/
theorem perform (shifted : Shifted base δ s s') (coherent : s.Coherent False) (request : Request) :
    Shifted base δ (s.perform request).1 (s'.perform request).1 ∧ s'.answer request = s.answer request := by
  obtain ⟨clock, bound, source⟩ := request
  have sameRead := shifted.readErrors source
  have sameResolved := (shifted.resolved source).1
  by_cases read : (s.reading source).readErrors = []
  · have ready := shifted.prepared source
    by_cases resolved : (resolve s.locals (s.program source)).errors = []
    · have accepted := accepts_of_read read resolved
      have accepted' := shifted.accepts accepted
      have ran : s.perform ⟨clock, bound, source⟩ = _ := run_accepted accepted clock bound
      have ran' : s'.perform ⟨clock, bound, source⟩ = _ := run_accepted accepted' clock bound
      obtain ⟨follows, ends⟩ := evaluate_alike rfl rfl ready.limit ready.follows (s.reading source)
        (s'.reading source) (shifted.program_alike coherent accepted) clock bound
      constructor
      · rw [ran, ran']
        exact ready.conclude follows
      · refine answer_congr ?_ ?_ ?_ ?_ ?_
        · rw [ran, ran', ends.verdict? accepted.clean accepted'.clean]
        · rw [ran, ran', ends.breach?]
        · rw [ran, ran', ends.output, List.nil_append]
        · rw [ran, ran', ends.complaints accepted.clean accepted'.clean (congrArg Ident.line)]
        · rw [ran, ran', follows.globals]
    · refine ready.rejected (run_unresolved read resolved clock bound)
        (run_unresolved (sameRead.trans read) (sameResolved ▸ resolved) clock bound) ?_ rfl rfl
      exact (congrArg (· ++ _) sameRead).trans (congrArg _ sameResolved)
  · have later := shifted.grow (Parse.lastId_le_parse s.lastId (scan source)) (fun _ _ => rfl) shifted.locals
    have ran' := run_unreadable (sameRead ▸ read) clock bound
    simp only [shifted.parsed] at ran'
    exact later.rejected (run_unreadable read clock bound) ran' (congrArg (· ++ []) sameRead) rfl rfl

private theorem answers (shifted : Shifted base δ s s') (coherent : s.Coherent False) (requests : List Request) :
    s'.answers requests = s.answers requests := by
  induction requests generalizing s s' with
  | nil => rfl
  | cons request later ih =>
    obtain ⟨next, same⟩ := shifted.perform coherent request
    have kept : (s.perform request).1.Coherent False := (coherent.run nofun request.clock request.bound).1
    rw [Session.answers, Session.answers, same, ih next kept]

end Shifted

/-- A run that reports static errors was not evaluated. -/
theorem rejects_of_verdict (verdict : (s.run clock bound source).2.verdict? = some .staticError) :
    ¬ s.Accepts source := by
  intro accepts
  have evaluated : ∀ output fault, ({ s.reading source with output, fault } : Report).verdict ≠ .staticError := by
    intro output fault
    have static : ({ s.reading source with output, fault } : Report).staticErrors = [] := accepts.clean.static
    simp only [Report.verdict, static, List.isEmpty_nil, Bool.not_true, Bool.false_eq_true, if_false]
    split <;> decide
  rw [run_accepted accepts, evaluate_eq] at verdict
  unfold conclude at verdict
  split at verdict
  · exact evaluated _ _ (Option.some.inj verdict)
  · exact evaluated _ _ (Option.some.inj verdict)
  · cases verdict
  · cases verdict

/-- A text with static errors prints nothing, and of the session it changes no more than identities,
distances and diagnostics. -/
theorem run_of_rejects (rejects : ¬ s.Accepts source) (clock : Nat → Float) (bound : Nat) :
    (s.run clock bound source).2.stdout = [] ∧ ∃ lastId locals diagnostics,
      (s.run clock bound source).1 = { s with lastId, locals, diagnostics } ∧ s.lastId ≤ lastId ∧
        ∀ node, node ≤ s.lastId → locals[node]? = s.locals[node]? := by
  have later := Parse.lastId_le_parse s.lastId (scan source)
  by_cases read : (s.reading source).readErrors = []
  · have unresolved : (resolve s.locals (s.program source)).errors ≠ [] := fun resolved =>
      rejects (accepts_of_read read resolved)
    rw [run_unresolved read unresolved]
    exact ⟨rfl, _, _, _, rfl, later, fun _ => prepared_keeps s source⟩
  · rw [run_unreadable read]
    exact ⟨rfl, _, _, _, rfl, later, fun _ _ => rfl⟩

/-- A program with static errors leaves no trace. Whatever was run before it: it prints nothing, changes
no variable and no earlier distance, and all that is run after it lets one see the same as without it. -/
theorem static_errors_leave_no_trace (reachable : Reachable (fun _ => True) s) (faulty : Request)
    (rejected : (s.perform faulty).2.verdict? = some .staticError) (later : List Request) :
    (s.perform faulty).1.answers later = s.answers later ∧ (s.perform faulty).2.stdout = [] ∧
      ∃ lastId locals diagnostics, (s.perform faulty).1 = { s with lastId, locals, diagnostics } ∧
        s.lastId ≤ lastId ∧ s.locals.Kept locals := by
  have coherent : s.Coherent False := reachable.coherent nofun
  have next : (s.perform faulty).1.Coherent False := (coherent.run nofun faulty.clock faulty.bound).1
  obtain ⟨silent, lastId, locals, diagnostics, left, above, keeps⟩ :=
    run_of_rejects (rejects_of_verdict rejected) faulty.clock faulty.bound
  have left : (s.perform faulty).1 = { s with lastId, locals, diagnostics } := left
  refine ⟨?_, silent, lastId, locals, diagnostics, left, above, fun node d known => ?_⟩
  · rw [left] at next ⊢
    obtain ⟨δ, rfl⟩ := Nat.exists_eq_add_of_le above
    exact (Shifted.left coherent keeps next.old).answers coherent later
  · rw [keeps node (coherent.old node d known), known]

/-- The faulty text is read as far as its `return`, uses up three identities and leaves distances; the next
one has a closure, which is called by the last. -/
theorem static_errors_leave_no_trace_between_runs :
    let first : Request := ⟨fun _ => 0, 20, Text.ofString "var a = 1;"⟩
    let faulty : Request := ⟨fun _ => 0, 20, Text.ofString "\x7b var b = a; a = b; print b; return; \x7d"⟩
    let next : Request := ⟨fun _ => 0, 20, Text.ofString "fun f(x) \x7b fun g() \x7b return x; \x7d return g; \x7d"⟩
    let last : Request := ⟨fun _ => 0, 20, Text.ofString "a = f(a); print a();"⟩
    let s := ((new none).perform first).1
    let s' := (s.perform faulty).1
    (s.perform faulty).2.verdict? = some .staticError ∧ s.lastId < s'.lastId ∧
      s'.answers [next, last] = s.answers [next, last] := by
  intro first faulty next last s s'
  have rejected : (s.perform faulty).2.verdict? = some .staticError := by decide +kernel
  have usedUp : s.lastId < s'.lastId := by decide +kernel
  have reachable : Reachable (fun _ => True) s := .run (.new none) _ _ _ trivial
  exact ⟨rejected, usedUp, (static_errors_leave_no_trace reachable faulty rejected [next, last]).1⟩

end Session
end Lox
