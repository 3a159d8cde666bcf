import Lox.Proofs.Heap.Chains
import Lox.Proofs.Session.Super

/-! The graph of scopes, classes, functions and instances. Its links lead to what is older, so following them comes to
an end; and they are fixed when a scope, a class, a function or an instance is made. -/
namespace Lox

namespace Heap

variable {h h' : Heap}

/-- The class that is so many superclasses up. -/
def forebear? (h : Heap) : Nat → ClassId → Option ClassId
  | 0, id => some id
  | n + 1, id =>
    match (h.cls id).superclass with
    | none => none
    | some superclass => forebear? h n superclass

/-- Following links comes to an end: scopes lie inside the globals, outside which there is nothing, and superclasses go
up to a class that has none. So the searches for a name and for a method, which follow these links, come to theirs. -/
structure WellLinked (h : Heap) : Prop where
  scopes : ∀ k < h.scopes.size, ∃ n, h.ancestor? n k = some globals ∧ h.ancestor? (n + 1) k = none
  classes : ∀ c, ∃ n root, h.forebear? n c = some root ∧ h.forebear? (n + 1) c = none
  search : ∀ k name, h.Search name k (h.owner? k name)
  nearest : ∀ c name, h.Nearest name c (h.method? c name)

/-- What there is in a heap is still there in another one, and its fixed parts are the same: the scope around a scope,
the name, superclass and methods of a class, the declaration and the scope of a function, and the class of an
instance. -/
structure Fixed (h h' : Heap) : Prop where
  scopes : ∀ k < h.scopes.size, k < h'.scopes.size ∧ (h'.scope k).parent = (h.scope k).parent
  classes : ∀ c < h.classes.size, c < h'.classes.size ∧ h'.cls c = h.cls c
  functions : ∀ f < h.functions.size, f < h'.functions.size ∧ h'.function f = h.function f
  instances : ∀ o < h.instances.size, o < h'.instances.size ∧ (h'.object o).cls = (h.object o).cls

private theorem Later.fixed (later : Later h h') : Fixed h h' where
  scopes _ inside := ⟨Nat.lt_of_lt_of_le inside later.scopes, later.parent inside⟩
  classes _ inside := ⟨Nat.lt_of_lt_of_le inside later.classes, later.cls inside⟩
  functions _ inside := ⟨Nat.lt_of_lt_of_le inside later.functions, later.function inside⟩
  instances _ inside := ⟨Nat.lt_of_lt_of_le inside later.instances, later.object inside⟩

namespace Rooted

private theorem aged (rooted : Rooted h) : h.Aged := by
  intro e p parent
  by_cases inside : e < h.scopes.size
  · by_cases outermost : e = globals
    · rw [outermost, rooted.outermost] at parent
      cases parent
    · obtain ⟨p', below, enclosing⟩ := rooted.enclosed outermost inside
      cases parent.symm.trans enclosing
      exact below
  · have absent : h.scopes[e]? = none := Array.getElem?_eq_none (Nat.not_lt.1 inside)
    rw [scope, absent] at parent
    cases parent

/-- From every scope one gets to the globals, and no further. -/
theorem chain (rooted : Rooted h) (k : ScopeId) (inside : k < h.scopes.size) :
    ∃ n, h.ancestor? n k = some globals ∧ h.ancestor? (n + 1) k = none := by
  induction k using Nat.strongRecOn with
  | ind k ih =>
    by_cases outermost : k = globals
    · rw [outermost]
      refine ⟨0, rfl, ?_⟩
      rw [ancestor?, rooted.outermost]
    · obtain ⟨p, below, parent⟩ := rooted.enclosed outermost inside
      obtain ⟨n, reached, ended⟩ := ih p below (Nat.lt_trans below inside)
      exact ⟨n + 1, (ancestor?_succ parent n).trans reached, (ancestor?_succ parent (n + 1)).trans ended⟩

end Rooted

private theorem exists_forebear? (older : ∀ {id parent}, (h.cls id).superclass = some parent → parent < id)
    (c : ClassId) :
    ∃ n root, h.forebear? n c = some root ∧ h.forebear? (n + 1) c = none := by
  induction c using Nat.strongRecOn with
  | ind c ih =>
    cases superclass : (h.cls c).superclass with
    | none =>
      refine ⟨0, c, rfl, ?_⟩
      rw [forebear?, superclass]
    | some parent =>
      have up : ∀ n, h.forebear? (n + 1) c = h.forebear? n parent := by
        intro n
        rw [forebear?, superclass]
      obtain ⟨n, root, reached, ended⟩ := ih parent (older superclass)
      exact ⟨n + 1, root, (up n).trans reached, (up (n + 1)).trans ended⟩

end Heap

private theorem Lexical.Grounded.wellLinked (grounded : Lexical.Grounded P H h) : h.WellLinked where
  scopes := grounded.rooted.chain
  classes := Heap.exists_forebear? grounded.older
  search := grounded.rooted.aged.search
  nearest := Heap.nearest_method? grounded.older

open Evaluation Lexical

/-- Two ways of which the second one begins where the first one ends. -/
theorem Lexical.Path.pairwise_append (first : Path h ms h') (second : Path h' ms' h'') :
    (h :: ms.map (·.state.heap) ++ h' :: ms'.map (·.state.heap) ++ [h'']).Pairwise Heap.Later := by
  obtain ⟨before, -, upTo⟩ := List.pairwise_append.1 first.pairwise
  have onward := second.pairwise
  rw [List.append_assoc]
  refine List.pairwise_append.2 ⟨before, onward, fun early earlier late later => ?_⟩
  have middle : Heap.Later early h' := upTo early earlier h' List.mem_cons_self
  rcases List.mem_cons.1 later with rfl | behind
  · exact middle
  · exact middle.trans ((List.pairwise_cons.1 onward).1 late behind)

namespace Session

variable {s : Session} {past : List (Context × Moment)}

/-- The heaps of a session: the first one, those of all that was done, the one there is now, and those of one more run
up to its end. -/
def heaps (s : Session) (past : List (Context × Moment)) (request : Request) : List Heap :=
  Heap.initial :: (past.map (·.2)).map (·.state.heap) ++ s.heap :: (s.observe request).2.map (·.state.heap) ++
    [(s.perform request).1.heap]

namespace Founded

private theorem moment_wellLinked (founded : s.Founded past) (request : Request) :
    ∀ moment ∈ (s.observe request).2, moment.state.heap.WellLinked :=
  fun moment member => ((founded.walk (accepts_of_moment member)).proper moment member).heap.wellLinked

private theorem path_observe (founded : s.Founded past) (request : Request) :
    Path s.heap (s.observe request).2 (s.perform request).1.heap := by
  by_cases accepts : s.Accepts request.source
  · have ended : (s.perform request).1.heap = (last ((s.evaluation request).run (.start s.heap s.readings))).heap := by
      rw [← observe_eq, observe_accepted accepts, conclude_heap]
    rw [ended]
    exact (founded.walk accepts).path
  · have same : (s.perform request).1.heap = s.heap := by
      obtain ⟨t, report, ran, -, state⟩ := run_rejected accepts request.clock request.bound
      rw [perform, ran]
      obtain rfl | ⟨-, rfl⟩ := state <;> rfl
    rw [observe_rejected accepts, same]
    exact Heap.Later.refl _

end Founded

/-- So were all heaps of the past, by what each run did then. -/
theorem Lived.wellLinked (lived : Lived s past) : ∀ entry ∈ past, entry.2.state.heap.WellLinked := by
  induction lived with
  | new | reset => exact fun _ member => absurd member List.not_mem_nil
  | run before request ih =>
    intro entry member
    rcases List.mem_append.1 member with old | now
    · exact ih entry old
    · obtain ⟨moment, during, rfl⟩ := List.mem_map.1 now
      exact before.founded.moment_wellLinked request moment during

/-- The object graph stays well-founded, and its fixed parts never change. In every heap of every session following the
scopes around a scope ends in the globals, following superclasses ends too, and so do the searches along them; and
whatever is done later, the scope around a scope, all there is to a class, the declaration and the scope of a function
and the class of an instance stay what they were made to be. -/
theorem object_graph_is_well_founded (lived : Lived s past) (request : Request) :
    (s.observe request).1 = s.perform request ∧
    (∀ h ∈ s.heaps past request, h.WellLinked) ∧
    (s.heaps past request).Pairwise Heap.Fixed := by
  have founded := lived.founded
  refine ⟨s.observe_eq request, fun h member => ?_, ?_⟩
  · rcases List.mem_append.1 member with upTo | ended
    · rcases List.mem_append.1 upTo with early | running
      · rcases List.mem_cons.1 early with rfl | old
        · exact (Grounded.initial s.Written fun _ _ => False).wellLinked
        · rw [List.map_map] at old
          obtain ⟨entry, done, rfl⟩ := List.mem_map.1 old
          exact lived.wellLinked entry done
      · rcases List.mem_cons.1 running with rfl | during
        · exact founded.heap.wellLinked
        · obtain ⟨moment, recorded, rfl⟩ := List.mem_map.1 during
          exact founded.moment_wellLinked request moment recorded
    · cases List.mem_singleton.1 ended
      exact (founded.run request).heap.wellLinked
  · exact (founded.path.pairwise_append (founded.path_observe request)).imp Heap.Later.fixed

/-- A class is declared anew below a class that the old one is the superclass of: the old one is still there, two
superclasses up. -/
theorem object_graph_is_well_founded_when_redeclared :
    let first : Request := ⟨fun _ => 0, 30, Text.ofString "class A \x7b m() \x7b return true; \x7d \x7d
      class B < A \x7b \x7d var b = B();"⟩
    let second : Request := ⟨fun _ => 0, 30, Text.ofString "class A < B \x7b \x7d print A().m(); print b.m();"⟩
    let s := ((new none).perform first).1
    let past := (new none).record first
    (s.perform second).2.stdout = Text.ofString "true\ntrue\n" ∧
      (s.perform second).1.heap.get? Heap.globals (Text.ofString "A") = some (.cls 2) ∧
      (s.perform second).1.heap.forebear? 2 2 = some 0 ∧
      (∀ h ∈ s.heaps past second, h.WellLinked) ∧ (s.heaps past second).Pairwise Heap.Fixed := by
  intro first second s past
  have lived : Lived s past := .run (.new none) first
  obtain ⟨-, linked, fixed⟩ := object_graph_is_well_founded lived second
  exact ⟨by decide +kernel, by decide +kernel, by decide +kernel, linked, fixed⟩

end Session
end Lox
