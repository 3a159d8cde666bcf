import Lox.Proofs.Evaluation.Standing

/-! Evaluation keeps code where it stands. At every moment of an evaluation the heap is grounded and what is started
stands in the scopes that the constructs around it make; from moment to moment heaps only grow. -/
namespace Lox.Lexical

open Evaluation
open Heap (Later)
open Site (Layer Everywhere layers)

/-- The heaps of some moments, from one heap to another, each later than the one before. -/
def Path : Heap → List Moment → Heap → Prop
  | h, [], h' => Later h h'
  | h, moment :: ms, h' => Later h moment.state.heap ∧ Path moment.state.heap ms h'

private theorem Path.after (first : Later h h') (path : Path h' ms h'') : Path h ms h'' := by
  cases ms with
  | nil => exact first.trans path
  | cons moment ms => exact ⟨first.trans path.1, path.2⟩

theorem Path.append (first : Path h ms h') (second : Path h' ms' h'') : Path h (ms ++ ms') h'' := by
  induction ms generalizing h with
  | nil => exact second.after first
  | cons moment ms ih => exact ⟨first.1, ih first.2⟩

/-- Of any two heaps on the way the second one is later. -/
theorem Path.pairwise (path : Path h ms h') : (h :: ms.map (·.state.heap) ++ [h']).Pairwise Later := by
  induction ms generalizing h with
  | nil => exact List.pairwise_pair.2 path
  | cons moment ms ih =>
    obtain ⟨first, rest⟩ := path
    have further := ih rest
    refine List.Pairwise.cons (fun heap member => ?_) further
    rcases List.mem_cons.1 member with rfl | behind
    · exact first
    · exact first.trans ((List.pairwise_cons.1 further).1 heap behind)

/-- What comes after a moment is later. -/
theorem Path.later (path : Path h (before ++ moment :: ms) h') :
    ∀ other ∈ ms, Later moment.state.heap other.state.heap := by
  induction before generalizing h with
  | cons first before ih => exact ih path.2
  | nil =>
    intro other member
    have onward := (List.pairwise_cons.1 path.2.pairwise).1
    exact onward _ (List.mem_append_left _ (List.mem_map_of_mem member))

/-- Evaluation of an expression or a statement stops. -/
def Stops (ctx : Context) (bound : Nat) (s : State) (stop : Stop) (t : State) : Task → Prop
  | .expr e => evalExpr ctx bound e s = .error stop t
  | .stmt stmt => execStmt ctx bound stmt s = .error stop t

def piece : Task → Piece
  | .expr e => .expr e
  | .stmt stmt => .stmt stmt

/-- What holds at every moment: the heap is grounded, there is the current scope, and what is started stands in the
scopes around it. -/
structure Proper (P : Site → Prop) (H : History) (moment : Moment) : Prop where
  heap : Grounded P H moment.state.heap
  inside : moment.state.scope < moment.state.heap.scopes.size
  stands : ∀ task, moment.event = .start task → ∃ around, Everywhere P ⟨piece task, around⟩ ∧
    Chain H moment.state.heap moment.state.scope (layers around)

/-- The moments of an evaluation and its result. What stops anywhere stops the evaluation. -/
structure Walk (P : Site → Prop) (H : History) (ctx : Context) (s : State) (ms : List Moment)
    (result : EStateM.Result Stop State α) (post : α → State → Prop) : Prop where
  path : Path s.heap ms (last result).heap
  proper : ∀ moment ∈ ms, Proper P H moment
  outcome : Outcome P H s post result
  stops : ∀ {task t}, ⟨.start task, t⟩ ∈ ms → ∃ n, ∀ stop u, Stops ctx (n + 1) t stop u task → result = .error stop u

/-- A computation that is such a walk, if all its moments are part of the history. -/
def Walks (P : Site → Prop) (H : History) (ctx : Context) (x : Traced α) (s : State) (post : α → State → Prop) :
    Prop :=
  (∀ moment ∈ x.trace s, H ctx moment) → Walk P H ctx s (x.trace s) (x.run s) post

section

variable {P : Site → Prop} {H : History} {ctx : Context} {s t : State} {post : α → State → Prop}
  {next : β → State → Prop}

namespace Walk

private theorem empty (outcome : Outcome P H s post result) : Walk P H ctx s [] result post :=
  ⟨outcome.later, nofun, outcome, nofun⟩

private theorem cons (proper : Proper P H ⟨event, t⟩) (same : t.heap = s.heap) (other : ∀ task, event ≠ .start task)
    (walk : Walk P H ctx s ms result post) : Walk P H ctx s (⟨event, t⟩ :: ms) result post := by
  refine ⟨⟨?_, ?_⟩, List.forall_mem_cons.2 ⟨proper, walk.proper⟩, walk.outcome, fun {task u} member => ?_⟩
  · exact same ▸ .refl _
  · rw [same]
    exact walk.path
  · rcases List.mem_cons.1 member with here | further
    · cases here
      exact absurd rfl (other task)
    · exact walk.stops further

private theorem append (walk : Walk P H ctx s ms (.ok a t) post) (further : Walk P H ctx t ms' result next) :
    Walk P H ctx s (ms ++ ms') result next := by
  refine ⟨walk.path.append further.path, List.forall_mem_append.2 ⟨walk.proper, further.proper⟩, ?_, ?_⟩
  · cases walk.outcome with
    | ok after => exact further.outcome.shift after
  · intro task u member
    rcases List.mem_append.1 member with early | late
    · obtain ⟨n, halts⟩ := walk.stops early
      refine ⟨n, fun stop v stopped => ?_⟩
      cases halts stop v stopped
    · exact further.stops late

/-- What has stopped has no other result. -/
theorem halt {stop : Stop} (walk : Walk P H ctx s ms (.error stop t) post) :
    Walk P H ctx s ms (.error stop t : EStateM.Result Stop State β) next := by
  refine ⟨walk.path, walk.proper, ?_, fun {task u} member => ?_⟩
  · cases walk.outcome with
    | stopped later heap => exact .stopped later heap
  · obtain ⟨n, halts⟩ := walk.stops member
    refine ⟨n, fun reason v stopped => ?_⟩
    cases halts reason v stopped
    rfl

/-- Goes on from every result. -/
theorem bind {x : Eval α} {f : α → Eval β} {moments : α → State → List Moment} (walk : Walk P H ctx s ms (x s) post)
    (further : ∀ {a t}, x s = .ok a t → After P H s t → post a t → Walk P H ctx t (moments a t) (f a t) next) :
    Walk P H ctx s (ms ++ onward (x s) moments) ((x >>= f) s) next := by
  simp only [Bind.bind, EStateM.bind]
  cases ran : x s with
  | error stop t =>
    rw [ran] at walk
    rw [onward, List.append_nil]
    exact walk.halt
  | ok a t =>
    rw [ran] at walk
    cases walk.outcome with
    | ok after held => exact walk.append (further ran after held)

end Walk

/-- A moment at which nothing is started. -/
theorem Ready.proper (ready : Ready P H s) (other : ∀ task, event ≠ .start task) : Proper P H ⟨event, s⟩ :=
  ⟨ready.heap, ready.inside, fun task same => absurd same (other task)⟩

/-- Something is done with other registers, which are put back at the end. -/
theorem Walk.enclose {s' : State} {enter : Moment} {close : Event} {result result' : EStateM.Result Stop State α}
    (walk : Walk P H ctx s' ms result post) (back : State → State) (same : s'.heap = s.heap)
    (proper : Proper P H enter) (entered : enter.state.heap = s.heap) (enters : ∀ task, enter.event ≠ .start task)
    (closes : ∀ task, close ≠ .start task) (finish : ∀ {a t}, result = .ok a t → result' = .ok a (back t))
    (halt : ∀ {stop t}, result = .error stop t → result' = .error stop t)
    (restores : ∀ {a t}, After P H s' t → post a t →
      (back t).heap = t.heap ∧ After P H s (back t) ∧ post a (back t)) :
    Walk P H ctx s (enter :: (ms ++ onward result fun _ t => [⟨close, t⟩])) result' post := by
  refine .cons proper entered enters ?_
  cases result with
  | error stop t =>
    rw [onward, List.append_nil, halt rfl]
    cases walk.outcome with
    | stopped later heap => exact ⟨same ▸ walk.path, walk.proper, .stopped (same ▸ later) heap, walk.stops⟩
  | ok a t =>
    rw [finish rfl]
    cases walk.outcome with
    | ok after held =>
      obtain ⟨unchanged, returned, held'⟩ := restores after held
      have left : Walk P H ctx t [⟨close, t⟩] (.ok a t) post :=
        .cons (after.toReady.proper closes) rfl closes (.empty (.ok after.toReady.after held))
      have whole := walk.append left
      refine ⟨?_, whole.proper, .ok returned held', fun member => ?_⟩
      · show Path s.heap _ (back t).heap
        rw [unchanged, ← same]
        exact whole.path
      · obtain ⟨n, halts⟩ := whole.stops member
        refine ⟨n, fun stop u stopped => ?_⟩
        cases halts stop u stopped

namespace Walks

private theorem pure (ready : Ready P H s) (held : post a s) : Walks P H ctx (pure a) s post :=
  fun _ => .empty (.pure ready held)

private theorem step {x : Eval α} (ready : Ready P H s) (outcome : Outcome P H s post (x s)) :
    Walks P H ctx (Host.step x) s post :=
  fun _ => .cons (ready.proper nofun) rfl nofun (.empty outcome)

private theorem bind {x : Traced α} {f : α → Traced β} (first : Walks P H ctx x s post)
    (further : ∀ {a t}, After P H s t → post a t → Walks P H ctx (f a) t next) :
    Walks P H ctx (x >>= f) s next := by
  intro told
  obtain ⟨early, late⟩ := List.forall_mem_append.1 told
  refine (first early).bind fun {a t} ran after held => further after held ?_
  rw [ran] at late
  exact late

private theorem andThen {x y : Traced Unit} (first : Walks P H ctx x s fun _ _ => True)
    (second : ∀ {t}, After P H s t → Walks P H ctx y t fun _ _ => True) :
    Walks P H ctx (Host.andThen x y) s fun _ _ => True := by
  intro told
  obtain ⟨early, late⟩ := List.forall_mem_append.1 told
  refine (first early).bind fun {a t} ran after _ => ?_
  rw [ran, onward] at late
  by_cases pending : t.pending.isSome = true
  · simp only [if_pos pending]
    exact .cons (after.toReady.proper nofun) rfl nofun (.empty (.ok after.toReady.after trivial))
  · simp only [if_neg pending] at late ⊢
    exact second after late

private theorem body {x : Traced Unit} (inner : Walks P H ctx x s fun _ _ => True) :
    Walks P H ctx (Host.body x) s Known := by
  intro told
  refine (inner (List.forall_mem_append.1 told).1).bind fun {_ t} _ after _ => ?_
  refine .cons (after.toReady.proper nofun) rfl nofun (.empty (.ok ?_ ?_))
  · exact ⟨⟨after.heap, after.inside, nofun⟩, .refl _, rfl⟩
  · cases pending : t.pending with
    | none => trivial
    | some value => exact after.pending value pending

private theorem within {x : Traced Unit} (ready : Ready P H s)
    (inner : Walks P H ctx x { s with scope } fun _ _ => True) :
    Walks P H ctx (Host.within scope x) s fun _ _ => True := by
  intro told
  have walk := inner (List.forall_mem_append.1 (List.forall_mem_cons.1 told).2).1
  have runs : (Host.within scope x).run s = inScope scope x.run s := rfl
  refine walk.enclose (fun t => { t with scope := s.scope }) rfl (ready.proper nofun) rfl nofun nofun
    (fun ran => ?_) (fun ran => ?_) fun after _ => ?_
  · rw [runs, inScope, ran]
  · rw [runs, inScope, ran]
  · have inside := Nat.lt_of_lt_of_le ready.inside after.later.scopes
    exact ⟨rfl, ⟨⟨after.heap, inside, after.pending⟩, after.later, rfl⟩, trivial⟩

private theorem deeper {x : Traced Value} (ready : Ready P H s)
    (inner : Walks P H ctx x { s with depth := s.depth + 1 } Known) : Walks P H ctx (Host.deeper x) s Known := by
  intro told
  have walk := inner (List.forall_mem_append.1 (List.forall_mem_cons.1 told).2).1
  have runs : (Host.deeper x).run s = nested x.run s := rfl
  have proper : Proper P H ⟨.descend, { s with depth := s.depth + 1 }⟩ := ⟨ready.heap, ready.inside, nofun⟩
  refine walk.enclose (fun t => { t with depth := t.depth - 1 }) rfl proper rfl nofun nofun (fun ran => ?_)
    (fun ran => ?_) fun after known => ?_
  · rw [runs, nested, ran]
  · rw [runs, nested, ran]
  · exact ⟨rfl, ⟨⟨after.heap, after.inside, after.pending⟩, after.later, after.scope⟩, known⟩

private theorem ret (ready : Ready P H s) (known : Known value s) :
    Walks P H ctx (Host.ret value) s fun _ _ => True := by
  refine fun _ => .cons (ready.proper nofun) rfl nofun (.empty (.ok ?_ trivial))
  refine ⟨⟨ready.heap, ready.inside, fun v pending => ?_⟩, .refl _, rfl⟩
  cases pending
  exact known

/-- What is started stands where it should; when it stops, all that is left is the stop. -/
theorem start {x : Traced α} (here : At P H around s) (good : Everywhere P ⟨piece task, around⟩)
    (halts : ∀ stop u, Stops ctx (n + 1) s stop u task → x.run s = .error stop u)
    (walks : H ctx ⟨.start task, s⟩ → Walks P H ctx x s post) : Walks P H ctx (Host.start task x) s post := by
  intro told
  obtain ⟨started, told⟩ := List.forall_mem_cons.1 told
  have walk := walks started told
  refine ⟨⟨.refl _, walk.path⟩, List.forall_mem_cons.2 ⟨⟨here.heap, here.inside, ?_⟩, walk.proper⟩, walk.outcome, ?_⟩
  · intro other same
    cases same
    exact ⟨around, good, here.chain⟩
  · intro other t member
    rcases List.mem_cons.1 member with same | further
    · cases same
      exact ⟨n, halts⟩
    · exact walk.stops further

end Walks
end
/-! The evaluator. -/

/-- Evaluates expressions that are good where they stand. -/
def Evals (P : Site → Prop) (H : History) (ctx : Context) (eval : Expr → Traced Value) : Prop :=
  ∀ {e around s}, At P H around s → Everywhere P ⟨.expr e, around⟩ → Walks P H ctx (eval e) s Known

def Execs (P : Site → Prop) (H : History) (ctx : Context) (exec : Stmt → Traced Unit) : Prop :=
  ∀ {stmt around s}, At P H around s → Everywhere P ⟨.stmt stmt, around⟩ →
    Walks P H ctx (exec stmt) s fun _ _ => True

section

variable {P : Site → Prop} {H : History} {ctx : Context} {around : List Enclosure} {s : State}
  {eval : Expr → Traced Value} {exec : Stmt → Traced Unit}

private theorem runAll_walks (execs : Execs P H ctx exec) {stmts : List Stmt} (here : At P H around s)
    (good : ∀ stmt ∈ stmts, Everywhere P ⟨.stmt stmt, around⟩) :
    Walks P H ctx (Hosted.runAll exec stmts) s fun _ _ => True := by
  induction stmts generalizing s with
  | nil => exact .pure here.toReady trivial
  | cons stmt rest ih =>
    obtain ⟨first, others⟩ := List.forall_mem_cons.1 good
    exact (execs here first).andThen fun after => ih (here.after after) others

theorem evalAll_walks (evals : Evals P H ctx eval) {es : List Expr} (here : At P H around s)
    (good : ∀ e ∈ es, Everywhere P ⟨.expr e, around⟩) :
    Walks P H ctx (Hosted.evalAll eval es) s fun values t => ∀ value ∈ values, Known value t := by
  induction es generalizing s with
  | nil => exact .pure here.toReady nofun
  | cons e rest ih =>
    obtain ⟨first, others⟩ := List.forall_mem_cons.1 good
    refine (evals here first).bind fun {value t} after known => ?_
    refine (ih (here.after after) others).bind fun {values u} after known' => ?_
    exact .pure after.toReady (List.forall_mem_cons.2 ⟨known.later after.later, known'⟩)

/-- A body is run in a new scope for the parameters. -/
theorem callClosure_walks (execs : Execs P H ctx exec) {c : Closure} (ready : Ready P H s)
    (placed : Placed P H s.heap [] c) (known : ∀ arg ∈ args, Known arg s) :
    Walks P H ctx (Hosted.callClosure exec c args) s Known := by
  obtain @⟨Λ, around, chain, shape, body, params⟩ := placed
  have binds : ∀ {name value}, (bindParams c.decl.params args).find? name = some value → Known value s :=
    fun found => known _ (exists_of_bindParams found).2
  have plain : Holds H (s.heap.newScope (some c.scope) (bindParams c.decl.params args)).2 s.heap.scopes.size
      .plain := by
    show Heap.find? _ _ _ = none
    rw [Heap.find?, Heap.scope_newScope, if_pos rfl, Option.eq_none_iff_forall_ne_some]
    intro value found
    obtain ⟨⟨param, member, same⟩, -⟩ := exists_of_bindParams found
    exact (params param member).1 same
  refine (Walks.step ready (openScope_outcome ready chain binds plain)).bind fun {scope t} after chain => ?_
  have inside : At P H around { t with scope } := by
    refine ⟨⟨after.heap, chain.inside after.heap.inhabited, after.pending⟩, ?_⟩
    rw [shape]
    exact chain
  refine (Walks.within after.toReady (runAll_walks execs inside body)).body.bind fun {result u} after known => ?_
  split
  · exact .step after.toReady (readAt_outcome after.toReady)
  · exact .pure after.toReady known

private theorem invoke_walks (execs : Execs P H ctx exec) {callable : Callable} (ready : Ready P H s)
    (placed : callable.Holds (Placed P H s.heap []) (Placed P H s.heap [.this])) (known : ∀ arg ∈ args, Known arg s) :
    Walks P H ctx (Hosted.invoke ctx exec callable args) s Known := by
  cases callable with
  | clock => exact .step ready (readClock_outcome ready)
  | function c => exact callClosure_walks execs ready placed known
  | construct c initializer =>
    have made : Walks P H ctx (Host.step (newInstance c)) s fun receiver t => Known (.object receiver) t :=
      .step ready (newInstance_outcome ready c)
    cases initializer with
    | none => exact made.bind fun after known => .pure after.toReady known
    | some initializer =>
      refine made.bind fun {receiver t} after new => ?_
      have bound := bindMethod_outcome after.toReady (placed.later after.later) new
      refine (Walks.step after.toReady bound).bind fun {bound u} after' placed => ?_
      have known : ∀ arg ∈ args, Known arg u := fun arg member =>
        (known arg member).later (after.later.trans after'.later)
      refine (callClosure_walks execs after'.toReady placed known).bind fun {_ v} after'' _ => ?_
      exact .pure after''.toReady (new.later (after'.later.trans after''.later))

section

variable (lawful : ∀ site, P site → ∃ L last, site.Resolved L last) (evals : Evals P H ctx eval)
  (execs : Execs P H ctx exec)

include lawful evals execs

private theorem evalStep_walks {e : Expr} (here : At P H around s) (good : Everywhere P ⟨.expr e, around⟩) :
    Walks P H ctx (Hosted.evalStep ctx eval exec e) s Known := by
  obtain ⟨self, parts⟩ := (Site.everywhere_expr e).1 good
  cases e with
  | literal value => exact .pure here.toReady (by cases value <;> trivial)
  | group inner => exact evals here (parts inner List.mem_cons_self)
  | unary op line operand =>
    refine (evals here (parts operand List.mem_cons_self)).bind fun after _ => ?_
    exact .step after.toReady (applyUnary_outcome after.toReady)
  | binary op line left right =>
    refine (evals here (parts left List.mem_cons_self)).bind fun after _ => ?_
    have second := parts right (List.mem_cons_of_mem _ List.mem_cons_self)
    refine (evals (here.after after) second).bind fun after _ => ?_
    exact .step after.toReady (applyBinary_outcome after.toReady)
  | logical op left right =>
    refine (evals here (parts left List.mem_cons_self)).bind fun {a t} after known => ?_
    split
    · exact .pure after.toReady known
    · exact evals (here.after after) (parts right (List.mem_cons_of_mem _ List.mem_cons_self))
  | use ref => exact .step here.toReady (readVariable_outcome here.toReady)
  | assign ref e =>
    refine (evals here (parts e List.mem_cons_self)).bind fun {value t} after known => ?_
    obtain ⟨_, _, ordinary⟩ := lawful _ self
    refine (Walks.step after.toReady (assignVariable_outcome after.toReady ordinary known)).bind fun after' _ => ?_
    exact .pure after'.toReady (known.later after'.later)
  | call callee arguments line =>
    obtain ⟨first, others⟩ := List.forall_mem_cons.1 parts
    refine (evals here first).bind fun {f t} after _ => ?_
    refine (evalAll_walks evals (here.after after) others).bind fun {args u} after known => ?_
    refine (Walks.step after.toReady (checkCall_outcome after.toReady)).bind fun {callable v} after placed => ?_
    have known : ∀ arg ∈ args, Known arg v := fun arg member => (known arg member).later after.later
    exact .deeper after.toReady (invoke_walks execs ⟨after.heap, after.inside, after.pending⟩ placed known)
  | get object name =>
    refine (evals here (parts object List.mem_cons_self)).bind fun after known => ?_
    exact .step after.toReady (getProperty_outcome after.toReady known)
  | set object name e =>
    refine (evals here (parts object List.mem_cons_self)).bind fun {found t} after inside => ?_
    cases found with
    | object receiver =>
      have second := parts e (List.mem_cons_of_mem _ List.mem_cons_self)
      refine (evals (here.after after) second).bind fun {value u} after known => ?_
      have inside : Known (.object receiver) u := inside.later after.later
      refine (Walks.step after.toReady (setField_outcome after.toReady inside known)).bind fun after' _ => ?_
      exact .pure after'.toReady (known.later after'.later)
    | _ => exact .step after.toReady (.fault after.toReady _ _)
  | self node line => exact .step here.toReady (readVariable_outcome here.toReady)
  | superMethod node line method => exact .step here.toReady (superMethod_outcome here.toReady)

/-- The start of a class declaration has to be part of the history: its methods go back to it. -/
theorem execStep_walks {stmt : Stmt} (here : At P H around s) (good : Everywhere P ⟨.stmt stmt, around⟩)
    (started : H ctx ⟨.start (.stmt stmt), s⟩) :
    Walks P H ctx (Hosted.execStep ctx eval exec stmt) s fun _ _ => True := by
  obtain ⟨self, parts⟩ := Site.everywhere_iff.1 good
  cases stmt with
  | expression e =>
    refine (evals here (parts _ List.mem_cons_self)).bind fun after _ => ?_
    exact .pure after.toReady trivial
  | print e =>
    refine (evals here (parts _ List.mem_cons_self)).bind fun after _ => ?_
    exact .step after.toReady (printValue_outcome after.toReady)
  | declare name init =>
    obtain ⟨_, _, ordinary⟩ := lawful _ self
    cases init with
    | none => exact .step here.toReady (define_outcome here ordinary trivial)
    | some e =>
      have inside : At P H (.initializer name.text :: around) s := ⟨here.toReady, here.chain⟩
      refine (evals inside (parts _ List.mem_cons_self)).bind fun after known => ?_
      exact .step after.toReady (define_outcome (here.after after) ordinary known)
  | block stmts =>
    refine (Walks.step here.toReady (currentScope_outcome here)).bind fun {k t} after chain => ?_
    have opened : Outcome P H t (fun k u => Chain H u.heap k (layers (.block :: around))) (openScope k [] t) := by
      refine openScope_outcome after.toReady chain nofun ?_
      show Heap.find? _ _ _ = none
      rw [Heap.find?, Heap.scope_newScope, if_pos rfl]
      rfl
    refine (Walks.step after.toReady opened).bind fun {k u} after chain => ?_
    have inside : At P H (.block :: around) { u with scope := k } :=
      ⟨⟨after.heap, chain.inside after.heap.inhabited, after.pending⟩, chain⟩
    exact .within after.toReady (runAll_walks execs inside (List.forall_mem_map.1 parts))
  | branch condition thenBranch elseBranch =>
    cases elseBranch with
    | none =>
      obtain ⟨tested, others⟩ := List.forall_mem_cons.1 parts
      refine (evals here tested).bind fun after _ => ?_
      split
      · exact execs (here.after after) (others _ List.mem_cons_self)
      · exact .pure after.toReady trivial
    | some elseBranch =>
      obtain ⟨tested, others⟩ := List.forall_mem_cons.1 parts
      refine (evals here tested).bind fun after _ => ?_
      split
      · exact execs (here.after after) (others _ List.mem_cons_self)
      · exact execs (here.after after) (others _ (List.mem_cons_of_mem _ List.mem_cons_self))
  | loop condition stmt =>
    obtain ⟨tested, others⟩ := List.forall_mem_cons.1 parts
    refine (evals here tested).bind fun after _ => ?_
    split
    · refine (execs (here.after after) (others _ List.mem_cons_self)).andThen fun after' => ?_
      exact execs ((here.after after).after after') good
    · exact .pure after.toReady trivial
  | function decl =>
    obtain ⟨_, _, ordinary, params⟩ := lawful _ self
    refine (Walks.step here.toReady (currentScope_outcome here)).bind fun {k t} after chain => ?_
    have placed : Placed P H t.heap [] ⟨decl, k, false⟩ := by
      have shape : layers (.functionBody :: around) = .plain :: ([] ++ layers around) := rfl
      exact ⟨chain, shape, List.forall_mem_map.1 parts, params⟩
    refine (Walks.step after.toReady (newFunction_outcome after.toReady placed)).bind fun after' known => ?_
    exact .step after'.toReady (define_outcome ((here.after after).after after') ordinary known)
  | ret line value =>
    cases value with
    | none => exact .ret here.toReady trivial
    | some e =>
      refine (evals here (parts _ List.mem_cons_self)).bind fun after known => ?_
      exact .ret after.toReady known
  | classDef name superclass methods =>
    obtain ⟨_, _, ordinary, params⟩ := lawful _ self
    obtain ⟨-, -, bodies⟩ := (Site.everywhere_class name superclass methods).1 good
    cases superclass with
    | none => exact .step here.toReady (declarePlain_outcome ordinary params here bodies)
    | some ref => exact .step here.toReady (declareSubclass_outcome ordinary params here started bodies)

end

theorem evaluation_walks (lawful : ∀ site, P site → ∃ L last, site.Resolved L last) (n : Nat) :
    Evals P H ctx (Hosted.evalExpr ctx n) ∧ Execs P H ctx (Hosted.execStmt ctx n) := by
  induction n with
  | zero =>
    constructor
    · intro e around s here _
      exact .step here.toReady (.stopped (.refl _) here.heap)
    · intro stmt around s here _
      exact .step here.toReady (.stopped (.refl _) here.heap)
  | succ n ih =>
    obtain ⟨evals, execs⟩ := ih
    constructor
    · intro e around s here good
      refine .start (n := n) here good (fun stop u stopped => ?_) fun _ => evalStep_walks lawful evals execs here good
      exact (congrFun (run_evalExpr ctx (n + 1) e) s).trans stopped
    · intro stmt around s here good
      refine .start (n := n) here good (fun stop u stopped => ?_) (execStep_walks lawful evals execs here good)
      exact (congrFun (run_execStmt ctx (n + 1) stmt) s).trans stopped

/-- A program starts at top level, among the globals. -/
theorem execProgram_walks (lawful : ∀ site, P site → ∃ L last, site.Resolved L last) (bound : Nat) {stmts : List Stmt}
    (here : At P H [] s) (good : ∀ stmt ∈ stmts, Everywhere P ⟨.stmt stmt, []⟩) :
    Walks P H ctx (Hosted.execProgram ctx bound stmts) s fun _ _ => True := by
  induction stmts generalizing s with
  | nil => exact .pure here.toReady trivial
  | cons stmt rest ih =>
    obtain ⟨first, others⟩ := List.forall_mem_cons.1 good
    exact ((evaluation_walks lawful bound).2 here first).bind fun after _ => ih (here.after after) others

end
end Lox.Lexical
