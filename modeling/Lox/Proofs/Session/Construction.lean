import Lox.Proofs.Session.Super

/-! What comes of calling classes and initializers. A class makes an instance that was not there before and returns it,
whatever becomes of its initializer; an initializer that is bound to an instance returns this instance. -/
namespace Lox

open Evaluation Lexical
open Heap (Later)
open Site (Everywhere layers)

namespace Heap

/-- An instance that there is not, and that nothing names. -/
structure Absent (h : Heap) (id : InstanceId) : Prop where
  unmade : h.instances.size ≤ id
  unbound : ∀ k name, h.find? k name ≠ some (.object id)
  unheld : ∀ other name, (h.object other).fields.find? name ≠ some (.object id)

/-- A function value that is the initializer of some class, bound to an instance. -/
inductive Initializes (h : Heap) (receiver : InstanceId) : Value → Prop where
  | intro {id : FunctionId} {closure : Closure} (inside : id < h.functions.size)
      (own : (h.cls c).methods.find? Names.initializer = some closure)
      (bound : h.function id = { closure with scope := home })
      (this : h.find? home Names.this = some (.object receiver)) :
      Initializes h receiver (.function id)

private theorem inside_of_method {h : Heap} {closure : Closure} (own : (h.cls c).methods.find? name = some closure) :
    c < h.classes.size := by
  apply Classical.byContradiction
  intro outside
  rw [cls, Array.getElem?_eq_none (Nat.not_lt.1 outside)] at own
  cases own

private theorem Initializes.later (initializes : Initializes h receiver value) (later : Later h h') :
    Initializes h' receiver value := by
  obtain ⟨inside, own, bound, this⟩ := initializes
  have scope := inside_of_contains (Table.contains_eq_true.2 ⟨_, this⟩)
  rw [← later.cls (inside_of_method own)] at own
  exact ⟨Nat.lt_of_lt_of_le inside later.functions, own, (later.function inside).trans bound,
    (later.word this_reserved scope).trans this⟩

end Heap

namespace Evaluation

/-- What an initializer returns is what its scope binds `this` to, whatever its body has returned. -/
theorem callClosure_this {closure : Closure} (ran : callClosure exec closure args s = .ok value t)
    (marked : closure.isInitializer = true) : t.heap.find? closure.scope Names.this = some value := by
  obtain ⟨_, _, _, ran⟩ := bind_eq_ok ran
  obtain ⟨_, _, _, ran⟩ := bind_eq_ok ran
  -- the pending value is taken whatever it is, and for an initializer it is not looked at
  obtain ⟨_, _, _, ran⟩ := bind_eq_ok ran
  rw [if_pos marked, readAt] at ran
  split at ran
  · rename_i found
    cases ran
    exact Heap.find?_of_getAt found
  · cases ran

/-- A call whose parts have values comes down to the call of these values. -/
theorem evalExpr_call {arguments : List Expr} (called : evalExpr ctx n callee s = .ok f t)
    (given : evalAll (evalExpr ctx n) arguments t = .ok args u) (line : Nat) :
    evalExpr ctx (n + 1) (.call callee arguments line) s = callValue ctx (execStmt ctx n) f args line u := by
  simp only [evalExpr, evalStep, Bind.bind, EStateM.bind, called, given]

/-- A call that returns has run what is called, one level deeper. -/
theorem callValue_eq_ok (ran : callValue ctx exec f args line s = .ok value t) :
    ∃ callable u, callable? s.heap f = some callable ∧
      invoke ctx exec callable args { s with depth := s.depth + 1 } = .ok value u ∧ t.heap = u.heap := by
  unfold callValue at ran
  simp only at ran
  split at ran
  · cases ran
  · split at ran
    · cases ran
    · split at ran
      · cases ran
      · obtain ⟨u, invoked, rfl⟩ := nested_eq_ok ran
        exact ⟨_, u, ‹_›, invoked, rfl⟩

/-- Methods that are found under the name of initializers are initializers when they are bound. -/
theorem boundMethod_initializes {method : Closure} {receiver : InstanceId}
    (found : s.heap.method? c Names.initializer = some method) (ran : boundMethod method receiver s = .ok value t) :
    t.heap.Initializes receiver value := by
  obtain ⟨_, own⟩ := Heap.exists_of_method? found
  let h := (s.heap.newScope (some method.scope) [(Names.this, .object receiver)]).2
  let bound : Closure := { method with scope := s.heap.scopes.size }
  have function : (h.newFunction bound).2.function h.functions.size = bound :=
    (Heap.function_newFunction ..).trans (if_pos rfl)
  have this : (h.newFunction bound).2.find? s.heap.scopes.size Names.this = some (.object receiver) := by
    show Table.find? (h.scope s.heap.scopes.size).bindings Names.this = _
    rw [Heap.scope_newScope, if_pos rfl, Table.find?_single, if_pos rfl]
  cases ran
  exact ⟨h.lt_newFunction bound, own, function, this⟩

/-- The nearest method called `init`, got from an instance that has no such field, is an initializer bound to it. -/
theorem get_initializes {object : Expr} {name : Ident} (named : name.text = Names.initializer)
    (evaluated : evalExpr ctx n object s = .ok (.object receiver) t)
    (unset : (t.heap.object receiver).fields.find? Names.initializer = none)
    (got : evalExpr ctx (n + 1) (.get object name) s = .ok value u) : u.heap.Initializes receiver value := by
  obtain ⟨_, _, first, got⟩ := bind_eq_ok got
  cases evaluated.symm.trans first
  rw [← named] at unset
  unfold getProperty at got
  simp only at got
  split at got
  · rename_i field held
    cases unset.symm.trans held
  · split at got
    · rename_i method found
      rw [named] at found
      exact boundMethod_initializes found got
    · cases got

/-- What comes of calling a class, given the initializer that is nearest to it: a fault if the arguments are not as many
as its parameters. Otherwise it is run, unless the calls are too deep, and what is returned is an instance of the class
that was nowhere before. -/
structure Constructs (ctx : Context) (n : Nat) (c : ClassId) (found : Option Closure) (args : List Value) (line : Nat)
    (s : State) (result : EStateM.Result Stop State Value) : Prop where
  refused : args.length ≠ found.elim 0 (·.decl.params.length) →
    result = .error (.fault ⟨.wrongArgumentCount (found.elim 0 (·.decl.params.length)) args.length,
      ⟨Text.ofString ")", line⟩⟩) s
  admitted : args.length = found.elim 0 (·.decl.params.length) →
    result = if limitReached ctx s.depth then .error (.fault ⟨.stackOverflow, ⟨Text.ofString ")", line⟩⟩) s
      else nested (invoke ctx (execStmt ctx n) (.construct c found) args) s
  yields : ∀ value t, result = .ok value t → ∃ id, value = .object id ∧ s.heap.Absent id ∧ .object id ∉ args ∧
    id < t.heap.instances.size ∧ (t.heap.object id).cls = c

private theorem arity_construct (c : ClassId) (found : Option Closure) :
    (Callable.construct c found).arity = found.elim 0 (·.decl.params.length) := by cases found <;> rfl

end Evaluation

/-! Calls in grounded heaps. -/

namespace Lexical

/-- Whatever has been done. -/
def anything : History := fun _ _ => True

variable {P : Site → Prop} {H : History} {ctx : Context} {around : List Enclosure} {s t : State}

private theorem At.always (here : At P H around s) : At P anything around s :=
  ⟨⟨here.heap.imp (fun _ => id) fun _ _ _ => trivial, here.inside, here.pending⟩, here.chain.imp fun _ _ _ => trivial⟩

/-- An instance that is not known to a grounded heap is nowhere in it. -/
theorem Grounded.absent {id : InstanceId} (grounded : Grounded P H h) (unmade : h.instances.size ≤ id) :
    h.Absent id := by
  refine ⟨unmade, fun k name bound => ?_, fun other name held => ?_⟩
  · exact Nat.not_le.2 (grounded.bound bound) unmade
  · exact Nat.not_le.2 (grounded.field held) unmade

section

variable (lawful : ∀ site, P site → ∃ L last, site.Resolved L last)

include lawful

private theorem evalExpr_outcome (ctx : Context) (n : Nat) (here : At P anything around s)
    (good : Everywhere P ⟨.expr e, around⟩) :
    Outcome P anything s Known (evalExpr ctx n e s) := by
  have evals : Evals P anything ctx (Hosted.evalExpr ctx n) := (evaluation_walks lawful n).1
  have walk := evals here good fun _ _ => trivial
  rw [← run_evalExpr]
  exact walk.outcome

private theorem evalAll_outcome (ctx : Context) (n : Nat) {es : List Expr} (here : At P anything around s)
    (good : ∀ e ∈ es, Everywhere P ⟨.expr e, around⟩) :
    Outcome P anything s (fun values t => ∀ value ∈ values, Known value t) (evalAll (evalExpr ctx n) es s) := by
  have evals : Evals P anything ctx (Hosted.evalExpr ctx n) := (evaluation_walks lawful n).1
  have walk := evalAll_walks evals here good fun _ _ => trivial
  have same := ((discipline ctx).evalAll ((discipline ctx).evaluation n).1 es).run
  rw [(evalExpr_execStmt_eq ctx n).1, evalAll_eq] at same
  rw [← same]
  exact walk.outcome

private theorem callClosure_outcome (ctx : Context) (n : Nat) {closure : Closure} (ready : Ready P anything s)
    (placed : Placed P anything s.heap [] closure) (known : ∀ arg ∈ args, Known arg s) :
    Outcome P anything s Known (callClosure (execStmt ctx n) closure args s) := by
  have execs : Execs P anything ctx (Hosted.execStmt ctx n) := (evaluation_walks lawful n).2
  have walk := callClosure_walks execs ready placed known fun _ _ => trivial
  have effects := fun stmt => ((discipline ctx).evaluation n).2 true stmt fun _ => rfl
  have same := ((discipline ctx).callClosure effects closure args).run
  rw [(evalExpr_execStmt_eq ctx n).2, callClosure_eq] at same
  rw [← same]
  exact walk.outcome

/-- A class makes the next instance; what is there after that stays there while its initializer runs. -/
theorem construct_eq_ok {found : Option Closure} (ready : Ready P anything s)
    (placed : ∀ closure ∈ found, Placed P anything s.heap [.this] closure) (known : ∀ arg ∈ args, Known arg s)
    (ran : invoke ctx (execStmt ctx n) (.construct c found) args s = .ok value t) :
    value = .object s.heap.instances.size ∧ Later (s.heap.newInstance c).2 t.heap := by
  cases found with
  | none =>
    cases ran
    exact ⟨rfl, .refl _⟩
  | some initializer =>
    obtain ⟨_, _, made, ran⟩ := bind_eq_ok ran
    obtain ⟨bound, u, binds, ran⟩ := bind_eq_ok ran
    -- the value of the call is dropped, and only the heap it leaves matters
    obtain ⟨_, _, called, ended⟩ := bind_eq_ok ran
    cases made
    cases ended
    cases newInstance_outcome ready c with
    | ok after new =>
      have initializer := (placed initializer rfl).later after.later
      have outcome := bindMethod_outcome after.toReady initializer new
      rw [binds] at outcome
      cases outcome with
      | ok after' bound =>
        have known : ∀ arg ∈ args, Known arg u := fun arg member =>
          (known arg member).later (after.later.trans after'.later)
        have outcome := callClosure_outcome lawful ctx n after'.toReady bound known
        rw [called] at outcome
        cases outcome with
        | ok after'' _ => exact ⟨rfl, after'.later.trans after''.later⟩

/-- A class is checked for the arguments that its nearest initializer takes. -/
theorem callValue_constructs (ready : Ready P anything s) (known : ∀ arg ∈ args, Known arg s) (line : Nat) :
    Constructs ctx n c (s.heap.method? c Names.initializer) args line s
      (callValue ctx (execStmt ctx n) (.cls c) args line s) := by
  refine ⟨fun differ => ?_, fun agree => ?_, fun value t ran => ?_⟩
  · rw [← arity_construct c] at differ ⊢
    exact if_pos differ
  · rw [← arity_construct c] at agree
    exact if_neg (not_not_intro agree)
  · obtain ⟨_, u, called, ran, same⟩ := callValue_eq_ok ran
    cases called
    have deeper : Ready P anything { s with depth := s.depth + 1 } := ⟨ready.heap, ready.inside, ready.pending⟩
    have placed : ∀ closure ∈ s.heap.method? c Names.initializer, Placed P anything s.heap [.this] closure :=
      fun closure found => ready.heap.method? found
    obtain ⟨rfl, later⟩ := construct_eq_ok lawful deeper placed known ran
    have made := s.heap.lt_newInstance c
    refine ⟨_, rfl, ready.heap.absent (Nat.le_refl _), fun given => ?_, ?_, ?_⟩
    · exact Nat.lt_irrefl _ (known _ given)
    · rw [same]
      exact Nat.lt_of_lt_of_le made later.instances
    · rw [same, later.object made, Heap.object_newInstance, if_pos rfl]

/-- An initializer returns what `this` is, which is what it was when it was bound. -/
theorem callValue_initializer (ready : Ready P anything s) (known : ∀ arg ∈ args, Known arg s)
    (initializes : s.heap.Initializes receiver f)
    (ran : callValue ctx (execStmt ctx n) f args line s = .ok value t) : value = .object receiver := by
  obtain @⟨c, home, id, closure, inside, own, bound, this⟩ := initializes
  obtain ⟨_, u, called, invoked, -⟩ := callValue_eq_ok ran
  cases called
  have deeper : Ready P anything { s with depth := s.depth + 1 } := ⟨ready.heap, ready.inside, ready.pending⟩
  have outcome := callClosure_outcome lawful ctx n deeper (ready.heap.function id) known
  have called : callClosure (execStmt ctx n) (s.heap.function id) args { s with depth := s.depth + 1 } = .ok value u :=
    invoked
  rw [called] at outcome
  rw [bound] at called
  cases outcome with
  | ok after _ =>
    have scope := Heap.inside_of_contains (Table.contains_eq_true.2 ⟨_, this⟩)
    have marked : closure.isInitializer = true := ready.heap.marked own
    have read := callClosure_this called marked
    -- `this` is a reserved word: nothing that the body has run can have bound it anew in this scope
    rw [after.later.word this_reserved scope, this] at read
    exact (Option.some.inj read).symm

end

end Lexical

namespace Session

variable {s : Session} {past : List (Context × Moment)} {request : Request} {σ ρ τ : State}

private theorem written_resolved (s : Session) : ∀ site, s.Written site → ∃ L last, site.Resolved L last :=
  fun _ written => ⟨_, _, written.1⟩

namespace Founded

/-- An expression that is started stands in the scopes around it, and no return is pending. -/
theorem starts (founded : s.Founded past) (member : ⟨.start (.expr e), σ⟩ ∈ (s.observe request).2) :
    σ.pending = none ∧ ∃ around, At (s.prepared request.source).Written anything around σ ∧
      Everywhere (s.prepared request.source).Written ⟨.expr e, around⟩ := by
  have idle : σ.pending = none := s.observe_sound request _ member rfl
  have proper := (founded.walk (accepts_of_moment member)).proper _ member
  obtain ⟨around, good, chain⟩ := proper.stands _ rfl
  have pending : ∀ value ∈ σ.pending, value.Known σ.heap := by
    rw [idle]
    exact nofun
  exact ⟨idle, around, At.always ⟨⟨proper.heap, proper.inside, pending⟩, chain⟩, good⟩

/-- What is called, and what it is given, exists when the call begins. -/
theorem given (founded : s.Founded past)
    (member : ⟨.start (.expr (.call callee arguments line)), σ⟩ ∈ (s.observe request).2)
    (called : evalExpr ctx n callee σ = .ok f ρ) (given : evalAll (evalExpr ctx n) arguments ρ = .ok args τ) :
    Ready (s.prepared request.source).Written anything τ ∧ Later ρ.heap τ.heap ∧ ∀ arg ∈ args, Known arg τ := by
  have lawful := (s.prepared request.source).written_resolved
  obtain ⟨-, around, here, good⟩ := founded.starts member
  obtain ⟨-, parts⟩ := (Site.everywhere_expr _).1 good
  have outcome := evalExpr_outcome lawful ctx n here (parts callee List.mem_cons_self)
  rw [called] at outcome
  cases outcome with
  | ok after _ =>
    have outcome := evalAll_outcome lawful ctx n (here.after after) fun e member =>
      parts e (List.mem_cons_of_mem _ member)
    rw [given] at outcome
    cases outcome with
    | ok after' known => exact ⟨after'.toReady, after'.later, known⟩

private theorem constructs (founded : s.Founded past)
    (member : ⟨.start (.expr (.call callee arguments line)), σ⟩ ∈ (s.observe request).2)
    (called : evalExpr ctx n callee σ = .ok (.cls c) ρ) (given : evalAll (evalExpr ctx n) arguments ρ = .ok args τ) :
    ∃ found, τ.heap.Nearest Names.initializer c found ∧
      Constructs ctx n c found args line τ (evalExpr ctx (n + 1) (.call callee arguments line) σ) := by
  obtain ⟨ready, -, known⟩ := founded.given member called given
  refine ⟨_, Heap.nearest_method? ready.heap.older c Names.initializer, ?_⟩
  rw [evalExpr_call called given]
  exact callValue_constructs (s.prepared request.source).written_resolved ready known line

private theorem initializes (founded : s.Founded past)
    (member : ⟨.start (.expr (.call callee arguments line)), σ⟩ ∈ (s.observe request).2)
    (called : evalExpr ctx n callee σ = .ok f ρ) (given : evalAll (evalExpr ctx n) arguments ρ = .ok args τ)
    (initializes : ρ.heap.Initializes receiver f)
    (returned : evalExpr ctx (n + 1) (.call callee arguments line) σ = .ok value υ) : value = .object receiver := by
  obtain ⟨ready, later, known⟩ := founded.given member called given
  have lawful := (s.prepared request.source).written_resolved
  rw [evalExpr_call called given] at returned
  exact callValue_initializer lawful ready known (initializes.later later) returned

/-- An expression leaves no return pending. -/
theorem settles (founded : s.Founded past) (member : ⟨.start (.expr e), σ⟩ ∈ (s.observe request).2)
    (evaluated : evalExpr ctx n e σ = .ok value υ) : υ.pending = none := by
  obtain ⟨idle, -⟩ := founded.starts member
  rw [← run_evalExpr] at evaluated
  exact (((discipline ctx).evaluation n).1 e).idle rfl evaluated idle

/-- `super.init` is an initializer that is bound to `this`. -/
theorem super_initializes (founded : s.Founded past)
    (member : ⟨.start (.expr (.superMethod node line name)), σ⟩ ∈ (s.observe request).2)
    (named : name.text = Names.initializer)
    (got : evalExpr (s.context request) (n + 1) (.superMethod node line name) σ = .ok value υ) :
    ∃ receiver, σ.heap.get? σ.scope Names.this = some (.object receiver) ∧ υ.heap.Initializes receiver value := by
  obtain ⟨around, -, -, resolved, chain⟩ := founded.stands member
  obtain ⟨-, -, -, -, superclass, receiver, -, -, -, -, this, found, missing⟩ := superMethod_eq chain resolved
  refine ⟨receiver, this, ?_⟩
  have ran : superMethod (s.context request) node name σ = .ok value υ := got
  cases lookup : σ.heap.method? superclass name.text with
  | some method =>
    rw [found method lookup] at ran
    rw [named] at lookup
    exact boundMethod_initializes lookup ran
  | none =>
    rw [missing lookup] at ran
    cases ran

end Founded

/-- Construction yields the new instance. Whatever has been done in a session, a call of a class with as many arguments
as the initializer nearest to it has parameters, with none if there is no initializer, is carried out unless the calls
are too deep; with any other number it faults. Whatever the initializer does, what such a call returns is an instance of
the class that was nowhere before. A call of an initializer that is bound to an instance returns this instance. Such is
the method `init` that is got from an instance, and the one of `super`, and such it stays from moment to moment. Of what
an initializer has returned nothing is left pending. -/
theorem construction_yields_the_new_instance (lived : Lived s past) (request : Request) :
    let ctx := s.context request
    let run := s.observe request
    run.1 = s.perform request ∧
    (∀ σ callee arguments line, ⟨.start (.expr (.call callee arguments line)), σ⟩ ∈ run.2 →
      ∀ n f ρ args τ, evalExpr ctx n callee σ = .ok f ρ → evalAll (evalExpr ctx n) arguments ρ = .ok args τ →
        let result := evalExpr ctx (n + 1) (.call callee arguments line) σ
        (∀ c, f = .cls c → ∃ found, τ.heap.Nearest Names.initializer c found ∧
          Constructs ctx n c found args line τ result) ∧
        ∀ value υ, result = .ok value υ →
          υ.pending = none ∧ ∀ receiver, ρ.heap.Initializes receiver f → value = .object receiver) ∧
    (∀ σ object name n receiver τ, name.text = Names.initializer → evalExpr ctx n object σ = .ok (.object receiver) τ →
      (τ.heap.object receiver).fields.find? Names.initializer = none →
      ∀ value υ, evalExpr ctx (n + 1) (.get object name) σ = .ok value υ → υ.heap.Initializes receiver value) ∧
    (∀ σ node line name, ⟨.start (.expr (.superMethod node line name)), σ⟩ ∈ run.2 → name.text = Names.initializer →
      ∀ n value υ, evalExpr ctx (n + 1) (.superMethod node line name) σ = .ok value υ →
        ∃ receiver, σ.heap.get? σ.scope Names.this = some (.object receiver) ∧ υ.heap.Initializes receiver value) ∧
    ((past.map (·.2) ++ run.2).map (·.state.heap) ++ [(s.perform request).1.heap]).Pairwise (fun h h' =>
      ∀ receiver f, h.Initializes receiver f → h'.Initializes receiver f) := by
  have founded := lived.founded
  refine ⟨s.observe_eq request, ?_, ?_, ?_, ?_⟩
  · intro σ callee arguments line member n f ρ args τ called given
    refine ⟨?_, fun value υ returned => ⟨founded.settles member returned, fun receiver initializes => ?_⟩⟩
    · rintro c rfl
      exact founded.constructs member called given
    · exact founded.initializes member called given initializes returned
  · intro σ object name n receiver τ named evaluated unset value υ got
    exact get_initializes named evaluated unset got
  · intro σ node line name member named n value υ got
    exact founded.super_initializes member named got
  · exact (founded.grows request).imp fun later receiver f initializes => initializes.later later

/-- An inherited initializer that returns early, from inside a loop, after it has run the one above it and has put
a field in the place of the method; and the method of an instance, called again. -/
theorem construction_yields_the_new_instance_when_hidden :
    let first : Request := ⟨fun _ => 0, 30, Text.ofString "
      class A \x7b init(x) \x7b this.x = x; \x7b return; \x7d \x7d \x7d
      class B < A \x7b init(x) \x7b super.init(x); this.init = x; while (true) \x7b return; \x7d \x7d \x7d
      class C < B \x7b \x7d var a = A(nil);"⟩
    let second : Request := ⟨fun _ => 0, 30, Text.ofString "print C(true).init; print a.init(true) == a;"⟩
    let s := ((new none).perform first).1
    let past := (new none).record first
    let ctx := s.context second
    Lived s past ∧ (s.perform second).2.stdout = Text.ofString "true\ntrue\n" ∧
      (∃ σ callee arguments line c ρ args τ id υ,
        ⟨.start (.expr (.call callee arguments line)), σ⟩ ∈ (s.observe second).2 ∧
        evalExpr ctx 20 callee σ = .ok (.cls c) ρ ∧ evalAll (evalExpr ctx 20) arguments ρ = .ok args τ ∧
        evalExpr ctx 21 (.call callee arguments line) σ = .ok (.object id) υ ∧
        τ.heap.Absent id ∧ (υ.heap.object id).cls = c) ∧
      ∃ σ object name arguments line receiver ρ υ,
        ⟨.start (.expr (.call (.get object name) arguments line)), σ⟩ ∈ (s.observe second).2 ∧
        evalExpr ctx 19 object σ = .ok (.object receiver) ρ ∧
        evalExpr ctx 21 (.call (.get object name) arguments line) σ = .ok (.object receiver) υ := by
  intro first second s past ctx
  have lived : Lived s past := .run (.new none) first
  have said : (s.perform second).2.stdout = Text.ofString "true\ntrue\n" := by decide +kernel
  obtain ⟨-, calls, gets, -, -⟩ := construction_yields_the_new_instance lived second
  refine ⟨lived, said, ?_, ?_⟩
  · have some : (s.observe second).2.any (fun moment =>
        match moment.event with
        | .start (.expr (.call callee arguments line)) =>
          decide ((evalExpr ctx 20 callee).run' moment.state = some (.cls 2)) &&
            ((evalExpr ctx 21 (.call callee arguments line)).run' moment.state).isSome
        | _ => false) = true := by decide +kernel
    obtain ⟨⟨event, σ⟩, member, found⟩ := List.any_eq_true.1 some
    split at found
    · rename_i callee arguments line started
      cases started
      obtain ⟨isClass, returns⟩ := Bool.and_eq_true_iff.1 found
      obtain ⟨ρ, called⟩ := eq_ok_of_run' (of_decide_eq_true isClass)
      obtain ⟨value, returned⟩ := Option.isSome_iff_exists.1 returns
      obtain ⟨υ, returned⟩ := eq_ok_of_run' returned
      obtain ⟨f, ρ', called', further⟩ := bind_eq_ok returned
      cases called.symm.trans called'
      obtain ⟨args, τ, given, -⟩ := bind_eq_ok further
      obtain ⟨constructs, -⟩ := calls σ callee arguments line member 20 _ ρ args τ called given
      obtain ⟨_, -, constructs⟩ := constructs 2 rfl
      obtain ⟨id, rfl, absent, -, -, isInstance⟩ := constructs.yields value υ returned
      exact ⟨σ, callee, arguments, line, 2, ρ, args, τ, id, υ, member, called, given, returned, absent, isInstance⟩
    · cases found
  · have some : (s.observe second).2.any (fun moment =>
        match moment.event with
        | .start (.expr (.call (.get object name) arguments line)) =>
          decide (name.text = Names.initializer) &&
          decide ((evalExpr ctx 19 object).run' moment.state = some (.object 0)) &&
            (((last (evalExpr ctx 19 object moment.state)).heap.object 0).fields.find? Names.initializer).isNone &&
            ((evalExpr ctx 21 (.call (.get object name) arguments line)).run' moment.state).isSome
        | _ => false) = true := by decide +kernel
    obtain ⟨⟨event, σ⟩, member, found⟩ := List.any_eq_true.1 some
    split at found
    · rename_i object name arguments line started
      cases started
      simp only [Bool.and_eq_true, decide_eq_true_eq, Option.isNone_iff_eq_none] at found
      obtain ⟨⟨⟨named, isInstance⟩, unset⟩, returns⟩ := found
      obtain ⟨ρ, evaluated⟩ := eq_ok_of_run' isInstance
      rw [evaluated] at unset
      obtain ⟨value, returned⟩ := Option.isSome_iff_exists.1 returns
      obtain ⟨υ, returned⟩ := eq_ok_of_run' returned
      obtain ⟨f, ρ', called, further⟩ := bind_eq_ok returned
      obtain ⟨args, τ, given, -⟩ := bind_eq_ok further
      have initializes := gets σ object name 19 0 ρ named evaluated unset f ρ' called
      obtain ⟨-, ends⟩ := calls σ _ arguments line member 20 f ρ' args τ called given
      obtain ⟨-, yields⟩ := ends value υ returned
      cases yields 0 initializes
      exact ⟨σ, object, name, arguments, line, 0, ρ, υ, member, evaluated, returned⟩
    · cases found

end Session
end Lox
