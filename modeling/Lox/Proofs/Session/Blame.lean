import Lox.Proofs.Evaluation.Blame
import Lox.Proofs.Session.Safety

/-! Whom faults blame. A fault of a run is blamed on a token of the text that is run, or on one of a text that was run
before and has left the token in a function or a method. -/
namespace Lox

open Likeness

/-- The name is a token of one of the texts. -/
def WrittenIn (texts : List Text) (name : Ident) : Prop := ∃ text ∈ texts, ∃ t ∈ (scan text).tokens, t.ident = name

private theorem WrittenIn.more (written : WrittenIn texts name) (text : Text) : WrittenIn (text :: texts) name := by
  obtain ⟨earlier, among, token⟩ := written
  exact ⟨earlier, List.mem_cons_of_mem _ among, token⟩

namespace Session

/-- The sessions that runs lead to, with the texts that were run since the session was new or was last reset, the
latest one first. -/
inductive Ran : Session → List Text → Prop where
  | new (limit : Option Nat) : Ran (.new limit) []
  | run {s : Session} (before : Ran s texts) (clock : Nat → Float) (bound : Nat) (source : Text) :
      Ran (s.run clock bound source).1 (source :: texts)
  | reset {s : Session} (before : Ran s texts) : Ran s.reset []

variable {s : Session} {source : Text} {texts : List Text}

private theorem Ran.reachable (ran : s.Ran texts) : Reachable (fun _ => True) s := by
  induction ran with
  | new limit => exact .new limit
  | run _ clock bound source ih => exact .run ih clock bound source trivial
  | reset _ ih => exact .reset ih

/-- Every session that runs lead to has such texts. -/
theorem Reachable.ran (reachable : Reachable allowed s) : ∃ texts, s.Ran texts := by
  induction reachable with
  | new limit => exact ⟨_, .new limit⟩
  | run _ clock bound source _ ih =>
    obtain ⟨texts, ran⟩ := ih
    exact ⟨_, ran.run clock bound source⟩
  | reset _ ih =>
    obtain ⟨texts, ran⟩ := ih
    exact ⟨_, ran.reset⟩

theorem Ran.coherent (ran : s.Ran texts) : s.Coherent False := ran.reachable.coherent nofun

theorem Accepts.suspects_tokens (accepts : s.Accepts source) :
    ∀ name ∈ Stmt.suspectsAll (s.program source), ∃ t ∈ (Lox.scan source).tokens, t.ident = name :=
  accepts.derived.suspects_tokens

/-- What holds of the names in the program and in the heap holds of the name that is blamed, and of what is left. -/
theorem Coherent.run_vouched (coherent : s.Coherent False) (left : s.heap.Holds (·.Vouched P))
    (written : s.Accepts source → ∀ name ∈ Stmt.suspectsAll (s.program source), P name)
    (clock : Nat → Float) (bound : Nat) : (s.run clock bound source).1.heap.Holds (·.Vouched P) ∧
      ∀ f, (s.run clock bound source).2.fault? = some f → P f.blamed := by
  by_cases accepts : s.Accepts source
  · obtain ⟨ν, heap⟩ := (coherent.prepared accepts.parse).heap
    have respelled := Stmt.respelled_same (.onLines (s.prepared source).locals id) rfl (s.program source)
    have alike := (coherent.program_alike accepts respelled nofun).vouched (written accepts)
    obtain ⟨follows, ends⟩ := evaluate_alike rfl rfl rfl ⟨⟨ν, heap.vouched left⟩, rfl⟩ (s.reading source)
      (s.reading source) alike clock bound
    rw [run_accepted accepts]
    refine ⟨?_, fun f faulty => ?_⟩
    · obtain ⟨_, heap'⟩ := follows.heap
      exact heap'.suspects
    · obtain ⟨_, -, -, blames⟩ := ends.exists_fault accepts.clean accepts.clean faulty
      exact blames.2
  · refine ⟨?_, fun f faulty => absurd (accepts_of_fault faulty) accepts⟩
    obtain ⟨t, report, ran, -, state⟩ := run_rejected accepts clock bound
    rw [ran]
    obtain rfl | ⟨-, rfl⟩ := state
    · exact left
    · exact left

/-- The functions and methods of a session are made of tokens of the texts that were run. -/
theorem Ran.left (ran : s.Ran texts) : s.heap.Holds (·.Vouched (WrittenIn texts)) := by
  induction ran with
  | new | reset => exact .initial nofun
  | @run texts s before clock bound source ih =>
    have left : s.heap.Holds (·.Vouched (WrittenIn (source :: texts))) :=
      ih.imp fun vouched name among => (vouched name among).more source
    refine (before.coherent.run_vouched left (fun accepts name among => ?_) clock bound).1
    exact ⟨source, List.mem_cons_self, accepts.suspects_tokens name among⟩

/-- A fault is blamed on a token of the text that is run or, where code of an earlier text is called, on a token that
this text has left in a function or a method. -/
theorem fault_blames_a_token (ran : s.Ran texts) (faulty : (s.run clock bound source).2.fault? = some f) :
    (∃ t ∈ (scan source).tokens, t.ident = f.blamed) ∨ s.heap.Suspects f.blamed ∧ WrittenIn texts f.blamed := by
  let origin (name : Ident) : Prop := (∃ t ∈ (scan source).tokens, t.ident = name) ∨ s.heap.Suspects name
  have left : s.heap.Holds (·.Vouched origin) :=
    s.heap.holds_suspects.imp fun vouched name among => .inr (vouched name among)
  have blamed : origin f.blamed :=
    (ran.coherent.run_vouched left (fun accepts name among => .inl (accepts.suspects_tokens name among)) clock bound).2
      f faulty
  exact blamed.imp id fun suspect => ⟨suspect, suspect.holds ran.left⟩

end Session
end Lox
