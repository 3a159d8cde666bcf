import Mathlib
import Lox.Proofs.Session.Safety
import Lox.Proofs.Tree.Completeness

/-! Scoping is lexical: the name of a local variable does not matter. A program in which the variable, with
exactly the uses that resolution binds to it, has a name that occurs nowhere else is resolved in the same
way and runs in the same way. -/
namespace Lox

open Likeness

/-- Two names trade places. -/
def Renaming.swap (x y : Text) (first : Ordinary x) (second : Ordinary y) : Renaming where
  apply name := if name = x then y else if name = y then x else name
  injective a b same := by grind
  this := by rw [if_neg first.1.symm, if_neg second.1.symm]
  super := by rw [if_neg first.2.symm, if_neg second.2.symm]

/-- A new name among names it does not occur in. -/
theorem Respelling.exists_sound (w : Respelling) (new : Ordinary w.new) :
    ∃ ρ, w.Sound (fun name => Ordinary name ∧ name ≠ w.new) ρ := by
  by_cases old : Ordinary w.old ∧ w.old ≠ w.new
  · refine ⟨.swap w.old w.new old.1 new, And.left, fun {name} ok => ?_, fun {a b} ok ok' same => ?_⟩
    · have other := ok.2
      simp only [spell, Renaming.swap]
      grind
    · have other := ok'.2
      have other' := ok.2
      simp only [Renaming.swap] at same
      grind
  · refine ⟨.same, And.left, fun {name} ok => ?_, fun _ _ => id⟩
    have other : name ≠ w.old := fun same => old (same ▸ ok)
    exact if_neg other

/-- Endings that cannot be told apart from outside. -/
structure Ending.Same (e e' : Ending) : Prop where
  stdout : e'.stdout = e.stdout
  stderr : e'.stderr = e.stderr
  verdict : e'.verdict? = e.verdict?
  breach : e'.breach? = e.breach?

namespace Session

variable {s : Session} {source source' : Text} {w : Respelling}

/-- A text that is read as the given program. -/
structure ReadsAs (s : Session) (source : Text) (ss : List Stmt) : Prop where
  scan : (Lox.scan source).errors = []
  parse : (Lox.parse s.lastId (Lox.scan source)).errors = []
  program : s.program source = ss

/-- The program with the new name is that of a text with the new name. -/
theorem exists_renamed_source (accepts : s.Accepts source) (new : Text.isIdentifier w.new = true)
    (still : w.line = id) (renamed : Respelled w none (.stmts (s.program source)) (.stmts ss)) :
    ∃ source', Text.Renames w.old w.new source source' ∧ s.ReadsAs source' ss := by
  obtain ⟨ts, tokens, derived⟩ := accepts.derived.respell (.declarations renamed)
  obtain ⟨source', renames, read⟩ := exists_source still new accepts.scan tokens
  have parsed : parse s.lastId (scan source') = ⟨ss, [], (s.prepared source).lastId⟩ := by
    rw [read]
    exact Parse.parse_complete derived
  refine ⟨source', renames, ?_, congrArg Parsed.errors parsed, congrArg Parsed.statements parsed⟩
  rw [read]
  exact accepts.scan

/-- The program with the new name is resolved in the same way. -/
theorem renamed_accepts (coherent : s.Coherent False) (accepts : s.Accepts source) (sound : w.Sound ok ρ)
    (locals : w.locals = (s.prepared source).locals) (names : Grammar.Identifiers ok (scan source).tokens)
    (renamed : Respelled w none (.stmts (s.program source)) (.stmts ss)) (reads : s.ReadsAs source' ss) :
    s.Accepts source' ∧ (s.prepared source').locals = (s.prepared source).locals := by
  have derived' := Parse.parse_sound s.lastId (scan source') reads.parse
  have formed' : Stmt.FormedAll (fun _ => True) (s.program source') := derived'.formed fun _ _ _ => trivial
  have found : Stmt.ScopedAll w.locals ⟨.topLevel, .outside⟩ [] (s.program source) := by
    rw [locals]
    exact coherent.program_scoped accepts
  have resolved : resolve s.locals (s.program source') = resolve s.locals (s.program source) := by
    rw [← reads.program] at renamed
    exact renamed.resolve_eq sound (accepts.derived.formed names) formed' found _
  refine ⟨⟨reads.scan, reads.parse, ?_⟩, ?_⟩
  · rw [resolved]
    exact accepts.resolve
  · rw [prepared, prepared, resolved]

/-- The program with the new name is evaluated in the same way. -/
theorem renamed_run (coherent : s.Coherent False) (accepts : s.Accepts source) (accepts' : s.Accepts source')
    (sound : w.Sound ok ρ) (still : w.line = id) (locals : w.locals = (s.prepared source).locals)
    (locals' : (s.prepared source').locals = (s.prepared source).locals)
    (names : Grammar.Identifiers ok (scan source).tokens)
    (renamed : Respelled w none (.stmts (s.program source)) (.stmts (s.program source')))
    (clock : Nat → Float) (bound : Nat) :
    Ending.Same (s.run clock bound source).2 (s.run clock bound source').2 := by
  have found : Stmt.ScopedAll w.locals ⟨.topLevel, .outside⟩ [] (s.program source) := by
    rw [locals]
    exact coherent.program_scoped accepts
  have alike : Alike (pairing w (s.prepared source).lastId False) false [] (.stmts (s.program source))
      (.stmts (s.program source')) := accepts.derived.alike sound names found renamed nofun
  have kept : ∀ name other, (Respelling.onLines (s.prepared source).locals id).Respells name other →
      w.Respells name other := by
    intro name other respells
    have same : other = w.kept name := by rw [Respelling.respells_onLines respells, Respelling.kept, still]
    rw [same]
    exact .kept
  have within : (pairing (.onLines (s.prepared source).locals id) (s.prepared source).lastId False).Within
      (pairing w (s.prepared source).lastId False) :=
    pairing_within (Nat.le_refl _) kept fun _ _ => by rw [locals]; rfl
  have heap : ∃ ν, HeapAlike (pairing w (s.prepared source).lastId False) ν s.heap s.heap := by
    obtain ⟨ν, heap⟩ := (coherent.prepared accepts.parse).heap
    exact ⟨ν, heap.widen within⟩
  have follows : Follows (pairing w (s.prepared source).lastId False) (s.prepared source)
      (s.prepared source') := ⟨heap, rfl⟩
  have table : w.locals = (s.prepared source').locals := locals.trans locals'.symm
  have limit : (s.prepared source').limit = (s.prepared source).limit := rfl
  obtain ⟨-, ends⟩ :=
    evaluate_alike locals table limit follows (s.reading source) (s.reading source') alike clock bound
  rw [run_accepted accepts, run_accepted accepts']
  refine ⟨?_, ends.stderr accepts.clean accepts'.clean ?_, ends.verdict? accepts.clean accepts'.clean, ends.breach?⟩
  · exact ends.stdout
  · intro name other respells
    exact respells.line.trans (congrFun still name.line)

/-- The name of a local variable or a parameter does not matter. Renamed to an identifier that occurs
nowhere in the text, with exactly the uses that resolution binds to it, it gives a program that some text
is read as; and every such text has no static errors, leaves the same distances and runs in the same way.
This holds of any choice of variables named `x` none of which is in the scope of another. -/
theorem local_name_is_irrelevant (reachable : Reachable (fun _ => True) s) (accepts : s.Accepts source)
    (name : Text.isIdentifier y = true) (unused : ∀ t ∈ (scan source).tokens, t.lexeme ≠ y)
    (renamed : Respelled ⟨(s.prepared source).locals, x, y, id⟩ none (.stmts (s.program source)) (.stmts ss)) :
    (∃ source', Text.Renames x y source source' ∧ s.ReadsAs source' ss) ∧
    ∀ source', s.ReadsAs source' ss → s.Accepts source' ∧ ∀ clock bound,
      (s.run clock bound source').1.locals = (s.run clock bound source).1.locals ∧
      Ending.Same (s.run clock bound source).2 (s.run clock bound source').2 := by
  have coherent : s.Coherent False := reachable.coherent nofun
  obtain ⟨ρ, sound⟩ := Respelling.exists_sound ⟨(s.prepared source).locals, x, y, id⟩
    (Text.ordinary_of_isIdentifier name)
  have names : Grammar.Identifiers (fun name => Ordinary name ∧ name ≠ y) (scan source).tokens :=
    fun t among named => ⟨scan_ordinary source t among named, unused t among⟩
  refine ⟨exists_renamed_source accepts name rfl renamed, fun source' reads => ?_⟩
  obtain ⟨accepts', locals⟩ := renamed_accepts coherent accepts sound rfl names renamed reads
  refine ⟨accepts', fun clock bound => ⟨?_, ?_⟩⟩
  · rw [run_accepted accepts, run_accepted accepts', evaluate_eq, evaluate_eq, conclude_locals, conclude_locals,
      locals]
  · rw [← reads.program] at renamed
    exact renamed_run coherent accepts accepts' sound rfl rfl locals names renamed clock bound

/-- A block that declares a variable of the same name, after a use of the outer one. -/
def shadowing : Text := Text.ofString "\x7b var a; \x7b print a; var a; print a; \x7d \x7d"

/-- Its program, with names for the outer variable and the inner one. -/
def shadowingProgram (outer inner : Text) : List Stmt :=
  [.block [.declare ⟨outer, 1⟩ none, .block [.print (.use ⟨1, ⟨outer, 1⟩⟩), .declare ⟨inner, 1⟩ none,
    .print (.use ⟨2, ⟨inner, 1⟩⟩)]]]

private theorem program_shadowing :
    (new none).program shadowing = shadowingProgram (Text.ofString "a") (Text.ofString "a") := by
  cbv

theorem local_name_is_irrelevant_shadowed :
    let a := Text.ofString "a"
    let b := Text.ofString "b"
    (new none).Accepts shadowing ∧ ∃ source', Text.Renames a b shadowing source' ∧
      (new none).ReadsAs source' (shadowingProgram b a) ∧ (new none).Accepts source' ∧ ∀ clock bound,
        Ending.Same ((new none).run clock bound shadowing).2 ((new none).run clock bound source').2 := by
  intro a b
  have accepts : (new none).Accepts shadowing := ⟨by decide +kernel, by decide +kernel, by decide +kernel⟩
  let w : Respelling := ⟨((new none).prepared shadowing).locals, a, b, id⟩
  have outer : w.used (some 1) ⟨1, ⟨a, 1⟩⟩ = ⟨1, ⟨b, 1⟩⟩ := by decide +kernel
  have inner : w.used (some 1) ⟨2, ⟨a, 1⟩⟩ = ⟨2, ⟨a, 1⟩⟩ := by decide +kernel
  have print : ∀ {node : NodeId} {name : Text}, w.used (some 1) ⟨node, ⟨a, 1⟩⟩ = ⟨node, ⟨name, 1⟩⟩ →
      Respelled w (some 1) (.stmt (.print (.use ⟨node, ⟨a, 1⟩⟩))) (.stmt (.print (.use ⟨node, ⟨name, 1⟩⟩))) := by
    intro node name used
    rw [← used]
    exact .print
  have renamed : Respelled w none (.stmts ((new none).program shadowing)) (.stmts (shadowingProgram b a)) := by
    rw [program_shadowing]
    exact .moreStmts (.block (.choose (by decide)) (.moreStmts .declare (.moreStmts (.block .pass
      (.moreStmts (print outer) (.moreStmts .declare (.moreStmts (print inner) .noStmts)))) .noStmts))) .noStmts
  obtain ⟨⟨source', renames, reads⟩, runs⟩ := local_name_is_irrelevant (.new none) accepts
    (by decide : Text.isIdentifier b = true) (by decide +kernel) renamed
  exact ⟨accepts, source', renames, reads, (runs source' reads).1,
    fun clock bound => ((runs source' reads).2 clock bound).2⟩

end Session
end Lox
