import Lox.Proofs.Resolution.Visits
import Lox.Proofs.Session.Runs
import Lox.Proofs.Tree.Numbering

/-! Identities over a session. All that a session has read, faulty or not, has nodes of different
identities, and these stand between the last identities before and after each run. The table of distances
has entries for such nodes only, and they are final. -/
namespace Lox.Session

variable {s t : Session} {request : Request}

/-- All that is read in some runs, faulty texts included. -/
def read : Session → List Request → List Stmt
  | _, [] => []
  | s, request :: later => s.program request.source ++ (s.perform request).1.read later

/-- The nodes that a run visits to find their distances. A text that cannot be read is not resolved. -/
def visits (s : Session) (source : Text) : List Visit :=
  if (s.reading source).readErrors = [] then
    Stmt.visitsAll ⟨.topLevel, .outside⟩ (s.program source) ⟨[], [], s.locals⟩
  else []

/-- A session in which nothing has been run yet, or not since it was reset. -/
inductive Begins : Session → Prop where
  | new (limit : Option Nat) : Begins (.new limit)
  | reset (s : Session) : Begins s.reset

/-- `ss` is all that has been read. -/
structure Knows (s : Session) (ss : List Stmt) : Prop where
  fresh : Fresh 0 s.lastId (Stmt.idsAll ss)
  keys : ∀ node d, s.locals[node]? = some d → node ∈ Stmt.idsAll ss

namespace Knows

private theorem nothing (begins : Begins s) : Knows s [] := by
  have empty : ∀ (node : NodeId) (d : Nat), (∅ : Locals)[node]? = some d → node ∈ Stmt.idsAll [] := by
    intro node d known
    simp at known
  cases begins with
  | new limit => exact ⟨Fresh.none 0, empty⟩
  | reset s => exact ⟨Fresh.none 0, empty⟩

private theorem program_fresh (s : Session) (request : Request) :
    Fresh s.lastId (s.perform request).1.lastId (Stmt.idsAll (s.program request.source)) := by
  rw [perform, run_lastId]
  exact Parse.parse_fresh s.lastId (scan request.source)

/-- The nodes of the next program are new to the table. -/
theorem unused (knows : Knows s ss) (source : Text) :
    ∀ node ∈ Stmt.idsAll (s.program source), s.locals[node]? = none := by
  intro node member
  cases known : s.locals[node]? with
  | none => rfl
  | some d =>
    have low := knows.fresh.within node (knows.keys node d known)
    have high := (Parse.parse_fresh s.lastId (scan source)).above node member
    exact absurd low (Nat.not_le.2 high)

private theorem tour (s : Session) (source : Text) : Resolver.Tour (Stmt.idsAll (s.program source))
    (Stmt.visitsAll ⟨.topLevel, .outside⟩ (s.program source) ⟨[], [], s.locals⟩)
    ⟨[], [], s.locals⟩ (resolve s.locals (s.program source)) :=
  Stmt.resolveAll_tour _ _ _

/-- What one run does to the table: entries stay, and new ones belong to the nodes just read. -/
theorem perform_locals (knows : Knows s ss) (request : Request) :
    s.locals.Kept (s.perform request).1.locals ∧ ∀ node d, (s.perform request).1.locals[node]? = some d →
      node ∈ Stmt.idsAll (s.program request.source) ∨ s.locals[node]? = some d := by
  rw [perform, run_locals]
  split
  · have walk := (tour s request.source).ext
    refine ⟨walk.kept (knows.unused request.source), fun node d known => ?_⟩
    by_cases member : node ∈ Stmt.idsAll (s.program request.source)
    · exact .inl member
    · exact .inr ((walk.others node member).symm.trans known)
  · exact ⟨fun _ _ => id, fun _ _ => .inr⟩

private theorem perform (knows : Knows s ss) (request : Request) :
    Knows (s.perform request).1 (ss ++ s.program request.source) := by
  constructor
  · rw [Stmt.idsAll_append]
    exact knows.fresh.append (program_fresh s request)
  · intro node d known
    rw [Stmt.idsAll_append, List.mem_append]
    rcases (knows.perform_locals request).2 node d known with added | old
    · exact .inr added
    · exact .inl (knows.keys node d old)

private theorem after (knows : Knows s ss) (requests : List Request) :
    Knows (s.after requests) (ss ++ s.read requests) := by
  induction requests generalizing s ss with
  | nil =>
    rw [read, List.append_nil]
    exact knows
  | cons request later ih =>
    have rest := ih (knows.perform request)
    rwa [List.append_assoc] at rest

private theorem after_locals (knows : Knows s ss) (requests : List Request) :
    s.locals.Kept (s.after requests).locals := by
  induction requests generalizing s ss with
  | nil => exact fun _ _ => id
  | cons request later ih => exact (knows.perform_locals request).1.trans (ih (knows.perform request))

/-- When a node is visited it has no entry yet, and the entries of earlier ones are final. -/
theorem visits_locals (knows : Knows s ss) (request : Request) :
    ∀ visit ∈ s.visits request.source, visit.walk.locals[visit.node]? = none ∧
      visit.walk.locals.Kept (s.perform request).1.locals := by
  intro visit member
  rw [Session.perform, run_locals]
  unfold visits at member
  split at member
  · have walk := tour s request.source
    obtain ⟨new, -, kept⟩ := walk.entries (Parse.parse_fresh s.lastId (scan request.source)).distinct
      (knows.unused request.source) visit member
    rw [if_pos ‹_›]
    exact ⟨new, kept⟩
  · cases member

end Knows

/-- A text that can be read is visited as a whole, each node once. -/
theorem visits_nodes (s : Session) (source : Text) (read : (s.reading source).readErrors = []) :
    (s.visits source).map (·.node) = Stmt.idsAll (s.program source) := by
  rw [visits, if_pos read]
  exact (Knows.tour s source).nodes

private theorem read_append (s : Session) (before later : List Request) :
    s.read (before ++ later) = s.read before ++ (s.after before).read later := by
  induction before generalizing s with
  | nil => rfl
  | cons request rest ih =>
    simp only [List.cons_append, read, ih, List.append_assoc]
    rfl

/-- Nodes keep their identities to themselves. From a new session or a reset on, whatever is run:
the nodes of all that is read have different identities, in each run above the last one before it and up
to the last one after it; each key of the table is the identity of one node; resolution visits each node
once, and finds no entry for it; and an entry stays as it is from the moment it is written, in its run and
after it. -/
theorem identities_are_never_reused (begins : Begins start) (before : List Request) (request : Request)
    (later : List Request) :
    let s := start.after before
    let t := (s.perform request).1
    (Stmt.idsAll (start.read (before ++ request :: later))).Nodup ∧
      s.lastId ≤ t.lastId ∧
      (∀ node ∈ Stmt.idsAll (s.program request.source), s.lastId < node ∧ node ≤ t.lastId) ∧
      (∀ node ∈ t.locals, (Stmt.idsAll (start.read (before ++ [request]))).count node = 1) ∧
      ((s.reading request.source).readErrors = [] →
        (s.visits request.source).map (·.node) = Stmt.idsAll (s.program request.source)) ∧
      (∀ visit ∈ s.visits request.source, visit.walk.locals[visit.node]? = none ∧
        visit.walk.locals.Kept (t.after later).locals) ∧
      s.locals.Kept (t.after later).locals := by
  intro s t
  have first := Knows.nothing begins
  have knows : Knows s (start.read before) := first.after before
  have next := knows.perform request
  have own := Knows.program_fresh s request
  refine ⟨(first.after (before ++ request :: later)).fresh.distinct, own.ordered,
    fun node member => ⟨own.above node member, own.within node member⟩, ?_, s.visits_nodes request.source, ?_, ?_⟩
  · intro node member
    have known : t.locals[node]? = some t.locals[node] := Std.TreeMap.getElem?_eq_some_getElem member
    have here := next.keys node _ known
    have all : start.read (before ++ [request]) = start.read before ++ s.program request.source := by
      rw [read_append, read, read, List.append_nil]
    rw [all, next.fresh.distinct.count, if_pos here]
  · intro visit member
    obtain ⟨new, kept⟩ := knows.visits_locals request visit member
    exact ⟨new, kept.trans (next.after_locals later)⟩
  · exact (knows.perform_locals request).1.trans (next.after_locals later)

/-- A program that fails in resolution has used up identities and left distances, which stay apart from
those of the next. -/
theorem identities_are_never_reused_after_errors :
    let faulty : Request := ⟨fun _ => 0, 20, Text.ofString "\x7b var a = 1; a = a + 1; return a; \x7d"⟩
    let request : Request := ⟨fun _ => 0, 20, Text.ofString "\x7b var a = 2; print a; \x7d"⟩
    let start := Session.new none
    let s := start.after [faulty]
    let t := (s.perform request).1
    (s.lastId = 4 ∧ 3 ∈ s.locals ∧ 5 ∈ t.locals) ∧
      (Stmt.idsAll (start.read [faulty, request])).Nodup ∧
      (Stmt.idsAll (start.read [faulty, request])).count 3 = 1 ∧
      s.locals.Kept t.locals := by
  intro faulty request start s t
  have entries : s.lastId = 4 ∧ 3 ∈ s.locals ∧ 5 ∈ t.locals := by decide +kernel
  have holds := identities_are_never_reused (.new none) [faulty] request []
  exact ⟨entries, holds.1, holds.2.2.2.1 3 (by decide +kernel), holds.2.2.2.2.2.2⟩

end Lox.Session
