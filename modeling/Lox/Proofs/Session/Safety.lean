import Lox.Proofs.Evaluation.Respelling
import Lox.Proofs.Session.Runs
import Lox.Proofs.Token.Scan
import Lox.Proofs.Tree.Soundness

/-! Sessions keep to what resolution has found. Whatever was run before, and however it ended, the heap
of a session is alike to itself: every closure in it stands in scopes that are as its code expects. A
run of a program that does not assign to a local variable in the variable's own initializer therefore
finds all it looks for. -/
namespace Lox

open Likeness

/-- A program of the grammar and what it becomes when it is written anew are alike. -/
theorem Grammar.Derives.alike {w : Respelling} (derived : Derives rule (.declarations ss) ts i j)
    (sound : w.Sound ok ρ) (names : Identifiers ok ts)
    (found : Stmt.ScopedAll w.locals ⟨.topLevel, .outside⟩ [] ss)
    (respelled : Respelled w none (.stmts ss) (.stmts ss'))
    (spared : strict → Stmt.anyAssignsInOwn false ss = false) :
    Alike (pairing w j strict) false [] (.stmts ss) (.stmts ss') := by
  have formed : Stmt.FormedAll ok ss := derived.formed names
  have standing : Standing none .outside [] := ⟨nofun, ⟨fun inside => absurd rfl inside, nofun⟩, nofun⟩
  have alike : Alike (pairing w j strict) (mayReturn ⟨.topLevel, .outside⟩ (.stmts ss)) (layers ρ none [])
      (.stmts ss) (.stmts ss') :=
    respelled_alike sound respelled standing formed found derived.fresh.within spared nofun trivial
  rwa [layers_nil] at alike

/-- New lines for a program whose names stay. -/
def Respelling.onLines (L : Locals) (line : Nat → Nat) : Respelling := ⟨L, [], [], line⟩

theorem Respelling.spell_onLines (L : Locals) (line : Nat → Nat) (name : Text) :
    (onLines L line).spell name = name := by
  unfold spell
  split
  · exact Eq.symm ‹_›
  · rfl

theorem Respelling.respells_onLines {line : Nat → Nat} (respells : (onLines L line).Respells name other) :
    other = ⟨name.text, line name.line⟩ := by
  cases respells with
  | kept => rfl
  | renamed => exact congrArg (Ident.mk · _) (spell_onLines L line name.text)

theorem Respelling.onLines_sound (L : Locals) (line : Nat → Nat) : (onLines L line).Sound Ordinary .same :=
  ⟨id, fun _ => spell_onLines L line _, fun _ _ => id⟩

namespace Session

variable {s t : Session} {source : Text}

theorem Accepts.derived (accepts : s.Accepts source) :
    Grammar.Derives .nearest (.declarations (s.program source)) (Lox.scan source).tokens s.lastId
      (s.prepared source).lastId :=
  Parse.parse_sound s.lastId (Lox.scan source) accepts.parse

/-! What sessions keep to. -/

/-- Distances are known of nodes that were handed out, and the heap is alike to itself. -/
structure Coherent (strict : Prop) (s : Session) : Prop where
  old : ∀ node d, s.locals[node]? = some d → node ≤ s.lastId
  heap : ∃ ν, HeapAlike (pairing (.onLines s.locals id) s.lastId strict) ν s.heap s.heap

namespace Coherent

theorem new (strict : Prop) (limit : Option Nat) : (Session.new limit).Coherent strict :=
  ⟨fun node d known => by simp [Session.new] at known, [.same], .initial _⟩

theorem reset (strict : Prop) (s : Session) : s.reset.Coherent strict :=
  have fresh := new strict s.limit
  ⟨fresh.old, fresh.heap⟩

theorem finish (coherent : s.Coherent strict) (report : Report) : (s.finish report).1.Coherent strict :=
  ⟨coherent.old, coherent.heap⟩

/-- More nodes, whose distances leave those of earlier nodes as they are. -/
theorem grow (coherent : s.Coherent strict) (later : s.lastId ≤ j)
    (old : ∀ node d, L[node]? = some d → node ≤ j)
    (keeps : ∀ node, node ≤ s.lastId → L[node]? = s.locals[node]?) :
    Session.Coherent strict { s with lastId := j, locals := L } := by
  obtain ⟨ν, heap⟩ := coherent.heap
  have within : (pairing (.onLines s.locals id) s.lastId strict).Within (pairing (.onLines L id) j strict) :=
    pairing_within later (fun _ _ respells => Respelling.respells_onLines respells ▸ .kept) keeps
  exact ⟨old, ν, heap.widen within⟩

theorem prepared (coherent : s.Coherent strict) (clean : (parse s.lastId (scan source)).errors = []) :
    (s.prepared source).Coherent strict := by
  have derived := Parse.parse_sound s.lastId (scan source) clean
  exact coherent.grow derived.fresh.ordered (resolve_old derived coherent.old) fun _ => resolve_keeps derived

/-- An accepted program is well scoped in the table it is evaluated with. -/
theorem program_scoped (coherent : s.Coherent strict) (accepts : s.Accepts source) :
    Stmt.ScopedAll (s.prepared source).locals ⟨.topLevel, .outside⟩ [] (s.program source) :=
  resolve_scoped accepts.derived coherent.old accepts.resolve

/-- An accepted program is alike to itself on other lines. -/
theorem program_alike (coherent : s.Coherent strict) (accepts : s.Accepts source)
    (respelled : Respelled (.onLines (s.prepared source).locals line) none (.stmts (s.program source)) (.stmts ss))
    (spared : strict → Stmt.anyAssignsInOwn false (s.program source) = false) :
    Alike (pairing (.onLines (s.prepared source).locals line) (s.prepared source).lastId strict) false []
      (.stmts (s.program source)) (.stmts ss) :=
  accepts.derived.alike (Respelling.onLines_sound _ line) (scan_ordinary source)
    (coherent.program_scoped accepts) respelled spared

/-- What the run of a program with static errors leaves is coherent again. -/
theorem rejected (coherent : s.Coherent strict) (rejects : ¬ s.Accepts source) (clock : Nat → Float) (bound : Nat) :
    (s.run clock bound source).1.Coherent strict := by
  obtain ⟨t, report, ran, -, state⟩ := run_rejected rejects clock bound
  rw [ran]
  have later : s.lastId ≤ (parse s.lastId (scan source)).lastId := Parse.lastId_le_parse ..
  refine finish ?_ report
  obtain rfl | ⟨clean, rfl⟩ := state
  · exact coherent.grow later (fun node d known => Nat.le_trans (coherent.old node d known) later) fun _ _ => rfl
  · exact coherent.prepared clean

/-- What a run leaves is coherent again, and no assumption about resolved names fails in it as long as
variables are not assigned to in their own initializers. -/
theorem run (coherent : s.Coherent strict)
    (spared : strict → Stmt.anyAssignsInOwn false (s.program source) = false)
    (clock : Nat → Float) (bound : Nat) : (s.run clock bound source).1.Coherent strict ∧
      (strict → (s.run clock bound source).2.breach? = none) := by
  by_cases accepts : s.Accepts source
  · have ready := coherent.prepared accepts.parse
    have respelled := Stmt.respelled_same (.onLines (s.prepared source).locals id) rfl (s.program source)
    obtain ⟨follows, ends⟩ := evaluate_alike rfl rfl rfl ⟨ready.heap, rfl⟩ (s.reading source)
      (s.reading source) (coherent.program_alike accepts respelled spared) clock bound
    rw [run_accepted accepts]
    constructor
    · constructor
      · rw [evaluate_eq, conclude_locals, conclude_lastId]
        exact ready.old
      · obtain ⟨ν, heap⟩ := follows.heap
        refine ⟨ν, ?_⟩
        rw [evaluate_eq, conclude_locals, conclude_lastId]
        exact heap
    · exact ends.not_breached
  · refine ⟨coherent.rejected accepts clock bound, fun _ => ?_⟩
    obtain ⟨t, report, ran, -⟩ := run_rejected accepts clock bound
    rw [ran]
    rfl

end Coherent

/-- The sessions that runs of allowed programs lead to, whatever the limit, the clock and the bound. -/
inductive Reachable (allowed : List Stmt → Prop) : Session → Prop where
  | new (limit : Option Nat) : Reachable allowed (.new limit)
  | run {s : Session} (before : Reachable allowed s) (clock : Nat → Float) (bound : Nat) (source : Text)
      (permitted : allowed (s.program source)) : Reachable allowed (s.run clock bound source).1
  | reset {s : Session} (before : Reachable allowed s) : Reachable allowed s.reset

theorem Reachable.coherent (reachable : Reachable allowed s)
    (spared : strict → ∀ ss, allowed ss → Stmt.anyAssignsInOwn false ss = false) : s.Coherent strict := by
  induction reachable with
  | new limit => exact .new strict limit
  | run _ clock bound _ permitted ih => exact (ih.run (fun holds => spared holds _ permitted) clock bound).1
  | reset => exact .reset strict _

/-- No variable of a local scope is assigned to in its own initializer. -/
def Spared (ss : List Stmt) : Prop := Stmt.anyAssignsInOwn false ss = false

instance (ss : List Stmt) : Decidable (Spared ss) := inferInstanceAs (Decidable (_ = _))

/-- Resolution and evaluation agree. Whatever has been run before, over any limit, clock and bound: a run
finds each resolved name in the scope at its distance, a distance for each `super`, a class for it and an
instance for `this`. (Nor are there unknown operators: they are a closed type, and the tokens that stand for them are
just the marks in their table, by `Grammar.Rank.join?_binary_iff` and `Grammar.sign?_iff`.) -/
theorem resolved_names_are_found (reachable : Reachable Spared s) (source : Text)
    (spared : Spared (s.program source)) (clock : Nat → Float) (bound : Nat) :
    (s.run clock bound source).2.breach? = none :=
  ((reachable.coherent fun _ _ => id).run (fun _ => spared) clock bound).2 trivial

/-- A method bound in one run is called in the next, where its `super` and `this` are looked up. -/
theorem resolved_names_are_found_later :
    let first := Text.ofString "class A \x7b f() \x7b return this; \x7d \x7d
      class B < A \x7b f() \x7b return super.f; \x7d \x7d var g = B().f;"
    let second := Text.ofString "\x7b var h = g(); \x7b var g = (h = h()); print g; \x7d \x7d"
    let s := ((new (some 2)).run (fun _ => 0) 20 first).1
    Spared ((new (some 2)).program first) ∧ Spared (s.program second) ∧
      (s.run (fun _ => 0) 20 second).2.breach? = none := by
  intro first second s
  have permitted : Spared ((new (some 2)).program first) := by decide +kernel
  have spared : Spared (s.program second) := by decide +kernel
  exact ⟨permitted, spared, resolved_names_are_found (.run (.new _) _ _ first permitted) second spared _ _⟩

/-- The exception: the variable is not bound yet when its initializer assigns to it. -/
example : ((new none).run (fun _ => 0) 10 (Text.ofString "\x7b var a = (a = nil); \x7d")).2.breach? =
    some .notBound := by
  decide +kernel

end Session
end Lox
