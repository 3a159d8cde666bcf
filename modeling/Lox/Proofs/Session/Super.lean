import Lox.Proofs.Evaluation.Walks
import Lox.Proofs.Session.Rejection
import Lox.Proofs.Session.Returns

/-! What `this` and `super` mean in a session. Both are settled when a method is bound and when its class is declared:
no scope ever binds them anew, `super` stands for the superclass as it was at the declaration of the class around it,
and what it finds is bound to the instance that `this` is. -/
namespace Lox

open Evaluation Lexical
open Site (Everywhere layers)

/-! Looking up `this` and `super`. -/

namespace Heap

/-- A function value that is a method bound to an instance. -/
def BoundTo (h : Heap) (method : Closure) (receiver : InstanceId) (value : Value) : Prop :=
  ∃ id home, value = .function id ∧ h.function id = { method with scope := home } ∧
    h.scope home = ⟨some method.scope, [(Names.this, .object receiver)]⟩

end Heap

private theorem Evaluation.boundMethod_eq (method : Closure) (receiver : InstanceId) (s : State) :
    ∃ value t, boundMethod method receiver s = .ok value t ∧ t.heap.BoundTo method receiver value := by
  let h := (s.heap.newScope (some method.scope) [(Names.this, .object receiver)]).2
  let bound : Closure := { method with scope := s.heap.scopes.size }
  refine ⟨.function h.functions.size, { s with heap := (h.newFunction bound).2 }, rfl, h.functions.size,
    s.heap.scopes.size, rfl, ?_, ?_⟩
  · exact (Heap.function_newFunction ..).trans (if_pos rfl)
  · exact (Heap.scope_newScope s.heap ..).trans (if_pos rfl)

namespace Lexical

variable {H : History} {s : State} {ctx : Context} {known : NodeId}

/-- `this` is the instance that the nearest scope binds it to. -/
theorem readVariable_this (chain : Chain H s.heap s.scope (layers around))
    (resolved : Site.Resolved ctx.locals known ⟨.expr (.self node line), around⟩) :
    ∃ receiver, s.heap.get? s.scope Names.this = some (.object receiver) ∧
      readVariable ctx node ⟨Names.this, line⟩ s = .ok (.object receiver) s := by
  obtain ⟨-, d, recorded, found⟩ := resolved
  obtain ⟨target, receiver, ancestor, owner, bound⟩ := chain.owner?_this found
  refine ⟨receiver, ?_, ?_⟩
  · rw [Heap.get?, owner, Option.bind_some, bound]
  · simp only [readVariable, recorded, readAt, Heap.getAt_of_find? ancestor bound]

/-- `super` goes back to a declaration of the class around, and looks for a method from there. -/
theorem superMethod_eq (chain : Chain H s.heap s.scope (layers around))
    (resolved : Site.Resolved ctx.locals known ⟨.expr (.superMethod node line name), around⟩) :
    ∃ ref methods d home superclass receiver,
      around.find? (·.isClass) = some (.classBody (some ref) methods) ∧
      s.heap.ancestor? d s.scope = some home ∧ home < s.heap.scopes.size ∧
      Declared H s.heap ref methods home superclass ∧
      s.heap.get? s.scope Names.this = some (.object receiver) ∧
      (∀ method, s.heap.method? superclass name.text = some method →
        superMethod ctx node name s = boundMethod method receiver s) ∧
      (s.heap.method? superclass name.text = none →
        superMethod ctx node name s = .error (.fault ⟨.undefinedProperty name.text, name⟩) s) := by
  obtain ⟨-, d, ref, methods, recorded, found, layer, inside⟩ := resolved
  obtain ⟨target, receiver, ancestor, owner, this⟩ := chain.owner?_this found
  obtain ⟨home, outside, older, -, superclass, super, declared⟩ := chain.ancestor? layer
  refine ⟨ref, methods, d + 1, home, superclass, receiver, inside, outside, older, declared, ?_,
    fun method found => ?_, fun absent => ?_⟩
  · rw [Heap.get?, owner, Option.bind_some, this]
  · simp only [superMethod, recorded, Heap.getAt_of_find? outside super, Nat.add_sub_cancel,
      Heap.getAt_of_find? ancestor this, found]
  · simp only [superMethod, recorded, Heap.getAt_of_find? outside super, Nat.add_sub_cancel,
      Heap.getAt_of_find? ancestor this, absent]
    rfl

end Lexical

/-! Sessions and what has been done in them. -/

namespace Session

variable {s t : Session} {source : Text}

/-- What stays fixed during a run. -/
def context (s : Session) (request : Request) : Context :=
  ⟨(s.opened request.source).1.locals, (s.opened request.source).1.limit, request.clock⟩

/-- The moments of a run. -/
def record (s : Session) (request : Request) : List (Context × Moment) :=
  (s.observe request).2.map (s.context request, ·)

private theorem record_moments (s : Session) (request : Request) :
    (s.record request).map (·.2) = (s.observe request).2 := by
  rw [record, List.map_map]
  exact List.map_id' _

/-- The sessions that runs lead to, with all that was done since their beginning. -/
inductive Lived : Session → List (Context × Moment) → Prop where
  | new (limit : Option Nat) : Lived (.new limit) []
  | run {s : Session} {past : List (Context × Moment)} (before : Lived s past) (request : Request) :
      Lived (s.perform request).1 (past ++ s.record request)
  | reset {s : Session} {past : List (Context × Moment)} (before : Lived s past) : Lived s.reset []

/-- A piece of some program, with the distances that the session knows. -/
def Written (s : Session) (site : Site) : Prop :=
  site.Resolved s.locals s.lastId ∧ ∃ program, Occurs program site

private theorem program_written (coherent : s.Coherent strict) (accepts : s.Accepts source) :
    ∀ stmt ∈ s.program source, Everywhere (s.prepared source).Written ⟨.stmt stmt, []⟩ := by
  intro stmt member site inside
  have derived := accepts.derived
  have formed := derived.formed (scan_ordinary source)
  refine ⟨?_, s.program source, stmt, member, inside⟩
  exact Stmt.resolvedAll [] .nil (s.program source) (coherent.program_scoped accepts) formed derived.fresh.within
    stmt member site inside

/-- What holds of sessions and their past: all their code stands where it should, and their heap has grown from moment
to moment. -/
structure Founded (s : Session) (past : List (Context × Moment)) : Prop where
  coherent : s.Coherent False
  heap : Grounded s.Written (fun ctx moment => (ctx, moment) ∈ past) s.heap
  path : Path Heap.initial (past.map (·.2)) s.heap

namespace Founded

private theorem new (limit : Option Nat) : (Session.new limit).Founded [] :=
  ⟨.new False limit, .initial _ _, .refl _⟩

/-- More nodes, whose distances leave those of earlier nodes as they are. -/
theorem grow (founded : s.Founded past) (coherent : t.Coherent False) (heap : t.heap = s.heap)
    (later : s.lastId ≤ t.lastId) (keeps : ∀ node, node ≤ s.lastId → t.locals[node]? = s.locals[node]?) :
    t.Founded past := by
  refine ⟨coherent, ?_, ?_⟩
  · rw [heap]
    exact founded.heap.imp (fun site written => ⟨written.1.grow later keeps, written.2⟩) fun _ _ => id
  · rw [heap]
    exact founded.path

private theorem prepared (founded : s.Founded past) (clean : (parse s.lastId (scan source)).errors = []) :
    (s.prepared source).Founded past :=
  founded.grow (founded.coherent.prepared clean) rfl (Parse.lastId_le_parse ..) fun _ => s.prepared_keeps source

private theorem finish (founded : s.Founded past) (report : Report) : (s.finish report).1.Founded past :=
  ⟨founded.coherent.finish report, founded.heap, founded.path⟩

/-- The run of a program with static errors leaves the heap alone. -/
theorem rejected (founded : s.Founded past) (request : Request) (rejects : ¬ s.Accepts request.source) :
    (s.perform request).1.Founded past := by
  obtain ⟨t, report, ran, -, state⟩ := run_rejected rejects request.clock request.bound
  rw [perform, ran]
  refine finish ?_ report
  obtain rfl | ⟨clean, rfl⟩ := state
  · have later : s.lastId ≤ (parse s.lastId (scan request.source)).lastId := Parse.lastId_le_parse ..
    have old := fun node d known => Nat.le_trans (founded.coherent.old node d known) later
    exact founded.grow (founded.coherent.grow later old fun _ _ => rfl) rfl later fun _ _ => rfl
  · exact founded.prepared clean

end Founded

/-- The evaluation of a program, with its moments. -/
def evaluation (s : Session) (request : Request) : Traced Unit :=
  Hosted.execProgram (s.context request) request.bound (s.program request.source)

theorem observe_accepted (accepts : s.Accepts request.source) :
    s.observe request = ((s.prepared request.source).conclude (s.reading request.source)
        ((s.evaluation request).run (.start s.heap s.readings)),
      (s.evaluation request).trace (.start s.heap s.readings)) := by
  unfold observe evaluation context
  rw [opened_accepted accepts]
  exact if_pos accepts.clean.static

theorem observe_rejected (rejects : ¬ s.Accepts request.source) : (s.observe request).2 = [] := by
  unfold observe
  simp only [if_neg (opened_rejected rejects)]

private theorem context_locals (accepts : s.Accepts request.source) :
    (s.context request).locals = (s.prepared request.source).locals := by rw [context, opened_accepted accepts]

theorem conclude_heap (s : Session) (report : Report) (result) :
    (s.conclude report result).1.heap = (last result).heap := by
  unfold conclude
  split <;> rfl

/-- The history once a run is part of it. -/
def With (past : List (Context × Moment)) (s : Session) (request : Request) : History :=
  fun ctx moment => (ctx, moment) ∈ past ++ s.record request

namespace Founded

/-- The moments of a run. -/
theorem walk (founded : s.Founded past) (accepts : s.Accepts request.source) :
    Walk (s.prepared request.source).Written (With past s request) (s.context request)
      (.start s.heap s.readings) (s.observe request).2 ((s.evaluation request).run (.start s.heap s.readings))
      fun _ _ => True := by
  have ready := founded.prepared accepts.parse
  have heap : Grounded (s.prepared request.source).Written (With past s request) s.heap :=
    ready.heap.imp (fun _ => id) fun _ _ => List.mem_append_left _
  rw [observe_accepted accepts]
  refine execProgram_walks (fun site written => ⟨_, _, written.1⟩) request.bound
    ⟨⟨heap, heap.inhabited, nofun⟩, .globals⟩ (program_written founded.coherent accepts) fun moment member => ?_
  apply List.mem_append_right
  rw [record, observe_accepted accepts]
  exact List.mem_map_of_mem member

theorem run (founded : s.Founded past) (request : Request) :
    (s.perform request).1.Founded (past ++ s.record request) := by
  by_cases accepts : s.Accepts request.source
  · have walk := founded.walk accepts
    have ended : (s.perform request).1 = ((s.prepared request.source).conclude (s.reading request.source)
        ((s.evaluation request).run (.start s.heap s.readings))).1 := by
      rw [← observe_eq, observe_accepted accepts]
    have coherent : (s.perform request).1.Coherent False :=
      (founded.coherent.run nofun request.clock request.bound).1
    refine ⟨coherent, ?_, ?_⟩
    · unfold Written
      rw [ended, conclude_locals, conclude_lastId, conclude_heap]
      exact walk.outcome.grounded
    · rw [ended, conclude_heap, List.map_append, record_moments]
      exact founded.path.append walk.path
  · have none : s.record request = [] := by rw [record, observe_rejected accepts, List.map_nil]
    rw [none, List.append_nil]
    exact founded.rejected request accepts

end Founded

theorem Lived.founded (lived : Lived s past) : s.Founded past := by
  induction lived with
  | new limit => exact .new limit
  | run _ request ih => exact ih.run request
  | @reset s =>
    have fresh := Founded.new s.limit
    exact ⟨.reset False s, fresh.heap, fresh.path⟩

/-- A declaration of the class that an expression is written in, executed at a moment of the past. The expression is
evaluated in a scope inside the one that was made then for the methods of the class. -/
inductive Declares (e : Expr) (σ : State) : Context × Moment → ClassId → Prop where
  | intro {s : State} (written : Site.WrittenIn (some ref) methods e)
      (evaluated : superclassOf ctx ref s = .ok superclass s)
      (made : σ.heap.cls s.heap.classes.size = ⟨name.text, some superclass, methodTable s.heap.scopes.size methods⟩)
      (inside : σ.heap.ancestor? d σ.scope = some s.heap.scopes.size) :
      Declares e σ (ctx, ⟨.start (.stmt (.classDef name (some ref) methods)), s⟩) superclass

/-- What comes of `super` and a name: the nearest method from the superclass on, bound to the receiver, or a fault on
the name that ends the run. -/
inductive Finds (ctx : Context) (e : Expr) (name : Ident) (σ : State) (superclass : ClassId) (receiver : InstanceId)
    (ending : Ending) : Prop where
  | method {closure : Closure} (nearest : σ.heap.Nearest name.text superclass (some closure))
      (evaluates : ∀ bound, ∃ value t, evalExpr ctx (bound + 1) e σ = .ok value t ∧
        t.heap.BoundTo closure receiver value)
  | missing (nearest : σ.heap.Nearest name.text superclass none)
      (faults : ending.fault? = some ⟨.undefinedProperty name.text, name⟩)

theorem accepts_of_moment (member : moment ∈ (s.observe request).2) : s.Accepts request.source := by
  apply Classical.byContradiction
  intro rejects
  rw [observe_rejected rejects] at member
  cases member

namespace Founded

variable {past : List (Context × Moment)} {request : Request} {σ : State}

/-- The heap grows from moment to moment and up to the end of a run. -/
theorem grows (founded : s.Founded past) (request : Request) :
    ((past.map (·.2) ++ (s.observe request).2).map (·.state.heap) ++ [(s.perform request).1.heap]).Pairwise
      Heap.Later := by
  have grown := (founded.run request).path.pairwise
  rw [List.map_append, record_moments] at grown
  exact (List.pairwise_cons.1 grown).2

/-- No scope binds `this` or `super` anew. -/
theorem words (founded : s.Founded past) (request : Request) :
    ((past.map (·.2) ++ (s.observe request).2).map (·.state.heap) ++ [(s.perform request).1.heap]).Pairwise
      fun h h' => ∀ k word value, word = Names.this ∨ word = Names.super →
        h.find? k word = some value → h'.find? k word = some value := by
  refine (founded.grows request).imp fun {h h'} later k word value reserved bound => ?_
  have inside := Heap.inside_of_contains (Table.contains_eq_true.2 ⟨value, bound⟩)
  rcases reserved with rfl | rfl
  · rw [later.word this_reserved inside, bound]
  · rw [later.word super_reserved inside, bound]

/-- An expression that is started stands in the scopes around it. -/
theorem stands (founded : s.Founded past) (member : ⟨.start (.expr e), σ⟩ ∈ (s.observe request).2) :
    ∃ around program, Occurs program ⟨.expr e, around⟩ ∧
      Site.Resolved (s.context request).locals (s.prepared request.source).lastId ⟨.expr e, around⟩ ∧
      Chain (With past s request) σ.heap σ.scope (layers around) := by
  have accepts := accepts_of_moment member
  obtain ⟨around, good, chain⟩ := ((founded.walk accepts).proper _ member).stands _ rfl
  obtain ⟨resolved, program, occurs⟩ := good _ .here
  rw [← context_locals accepts] at resolved
  exact ⟨around, program, occurs, resolved, chain⟩

private theorem this (founded : s.Founded past)
    (member : ⟨.start (.expr (.self node line)), σ⟩ ∈ (s.observe request).2) :
    ∃ receiver, σ.heap.get? σ.scope Names.this = some (.object receiver) ∧
      ∀ bound, evalExpr (s.context request) (bound + 1) (.self node line) σ = .ok (.object receiver) σ := by
  obtain ⟨around, _, _, resolved, chain⟩ := founded.stands member
  obtain ⟨receiver, found, read⟩ := readVariable_this chain resolved
  exact ⟨receiver, found, fun _ => read⟩

/-- The declaration that a `super` goes back to was executed before. -/
theorem earlier (founded : s.Founded past) (split : (s.observe request).2 = before ++ ⟨.start (.expr e), σ⟩ :: later)
    (declared : With past s request ctx ⟨.start (.stmt stmt), u⟩) (older : u.heap.scopes.size < σ.heap.scopes.size) :
    (ctx, ⟨.start (.stmt stmt), u⟩) ∈ past ++ before.map (s.context request, ·) := by
  rcases List.mem_append.1 declared with old | now
  · exact List.mem_append_left _ old
  · obtain ⟨moment, member, same⟩ := List.mem_map.1 now
    cases same
    have path := (founded.walk (accepts_of_moment member)).path
    rw [split] at member path
    rcases List.mem_append.1 member with early | late
    · exact List.mem_append_right _ (List.mem_map_of_mem early)
    · rcases List.mem_cons.1 late with same | behind
      · cases same
      · exact absurd older (Nat.not_lt.2 (path.later _ behind).scopes)

/-- A `super` finds the nearest method from the superclass on, as that was when the class around was declared. -/
theorem super (founded : s.Founded past)
    (split : (s.observe request).2 = before ++ ⟨.start (.expr (.superMethod node line name)), σ⟩ :: later) :
    ∃ declaration ∈ past ++ before.map (s.context request, ·), ∃ superclass receiver,
      Declares (.superMethod node line name) σ declaration superclass ∧
      σ.heap.get? σ.scope Names.this = some (.object receiver) ∧
      Finds (s.context request) (.superMethod node line name) name σ superclass receiver (s.observe request).1.2 := by
  have member : ⟨.start (.expr (.superMethod node line name)), σ⟩ ∈ (s.observe request).2 := by
    rw [split]
    exact List.mem_append_right _ List.mem_cons_self
  have accepts := accepts_of_moment member
  have walk := founded.walk accepts
  obtain ⟨around, program, occurs, resolved, chain⟩ := founded.stands member
  obtain ⟨ref, methods, d, home, superclass, receiver, innermost, inside, older, declared, this, found, missing⟩ :=
    superMethod_eq chain resolved
  obtain ⟨moment, evaluated, -, made⟩ := declared
  refine ⟨_, founded.earlier split moment older, superclass, receiver,
    ⟨Site.writtenIn_of_occurs occurs innermost, evaluated, made, inside⟩, this, ?_⟩
  have nearest := Heap.nearest_method? (walk.proper _ member).heap.older superclass name.text
  cases lookup : σ.heap.method? superclass name.text with
  | some closure =>
    rw [lookup] at nearest
    obtain ⟨value, t, bound, isBound⟩ := boundMethod_eq closure receiver σ
    exact .method nearest fun _ => ⟨value, t, (found closure lookup).trans bound, isBound⟩
  | none =>
    rw [lookup] at nearest
    obtain ⟨n, stops⟩ := walk.stops member
    refine .missing nearest ?_
    rw [observe_accepted accepts, stops _ _ (missing lookup)]
    rfl

end Founded

/-- `super` is static and `this` is fixed. Whatever has been done in a session: a scope that binds `this` or `super`
never binds it to anything else. `this` is the instance that the nearest scope binds it to. And `super` goes back to a
declaration of the class around it: from what the superclass expression was at that moment on, whatever has become of
the variables since and whatever the receiver is, the nearest method is found and bound to the instance that `this` is;
and if there is none, the run ends with a fault on the name of the method. -/
theorem super_is_static (lived : Lived s past) (request : Request) :
    let ctx := s.context request
    let run := s.observe request
    run.1 = s.perform request ∧
    ((past.map (·.2) ++ run.2).map (·.state.heap) ++ [(s.perform request).1.heap]).Pairwise (fun h h' =>
      ∀ k word value, word = Names.this ∨ word = Names.super →
        h.find? k word = some value → h'.find? k word = some value) ∧
    (∀ σ node line, ⟨.start (.expr (.self node line)), σ⟩ ∈ run.2 →
      ∃ receiver, σ.heap.get? σ.scope Names.this = some (.object receiver) ∧
        ∀ bound, evalExpr ctx (bound + 1) (.self node line) σ = .ok (.object receiver) σ) ∧
    ∀ before σ later node line name,
      run.2 = before ++ ⟨.start (.expr (.superMethod node line name)), σ⟩ :: later →
      ∃ declaration ∈ past ++ before.map (ctx, ·), ∃ superclass receiver,
        Declares (.superMethod node line name) σ declaration superclass ∧
        σ.heap.get? σ.scope Names.this = some (.object receiver) ∧
        Finds ctx (.superMethod node line name) name σ superclass receiver run.1.2 := by
  have founded := lived.founded
  exact ⟨s.observe_eq request, founded.words request, fun _ _ _ => founded.this, fun _ _ _ _ _ _ => founded.super⟩

/-- A method that is kept while all classes are bound anew: its `super`, in a function inside it, is still the first
superclass. -/
theorem super_is_static_when_rebound :
    let first : Request := ⟨fun _ => 0, 30, Text.ofString "class A \x7b m() \x7b return true; \x7d \x7d
      class B < A \x7b m() \x7b return nil; \x7d f() \x7b fun g() \x7b return super.m(); \x7d return g; \x7d \x7d
      class C < B \x7b m() \x7b return nil; \x7d \x7d var g = C().f();"⟩
    let second : Request := ⟨fun _ => 0, 30, Text.ofString "A = C; B = nil; class C \x7b \x7d print g();"⟩
    let s := ((new none).perform first).1
    let past := (new none).record first
    Lived s past ∧ (s.perform second).2.stdout = Text.ofString "true\n" ∧
      ∃ before σ later node line name,
        (s.observe second).2 = before ++ ⟨.start (.expr (.superMethod node line name)), σ⟩ :: later ∧
        ∃ declaration ∈ past ++ before.map (s.context second, ·), ∃ superclass receiver,
          Declares (.superMethod node line name) σ declaration superclass ∧
          σ.heap.get? σ.scope Names.this = some (.object receiver) ∧
          Finds (s.context second) (.superMethod node line name) name σ superclass receiver
            (s.observe second).1.2 := by
  intro first second s past
  have lived : Lived s past := .run (.new none) first
  have said : (s.perform second).2.stdout = Text.ofString "true\n" := by decide +kernel
  have some : (s.observe second).2.any (fun moment =>
      match moment.event with
      | .start (.expr (.superMethod _ _ _)) => true
      | _ => false) = true := by decide +kernel
  obtain ⟨⟨event, σ⟩, member, isSuper⟩ := List.any_eq_true.1 some
  split at isSuper
  · rename_i node line name started
    cases started
    obtain ⟨before, later, split⟩ := List.append_of_mem member
    obtain ⟨-, -, -, super⟩ := super_is_static lived second
    exact ⟨lived, said, before, σ, later, node, line, name, split, super _ _ _ _ _ _ split⟩
  · cases isSuper

end Session
end Lox
