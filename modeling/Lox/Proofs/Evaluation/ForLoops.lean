import Lox.Proofs.Evaluation.Apart
import Lox.Proofs.Evaluation.Endings
import Lox.Proofs.Resolution.Rules
import Lox.Proofs.Tree.Grammar

/-! For statements mean what they say. What such a statement does is told in its own terms, clause by clause and round
by round; its tree, made of blocks and a loop, comes to the same from every state. The variable of the first clause is
in one scope for all rounds, and what is declared in a round is in other scopes. -/
namespace Lox

/-! What expressions and statements leave alone. -/

namespace Evaluation

private theorem Evaluates.wider (evaluates : Evaluates ctx e s r) : s.heap.Wider (last r).heap := by
  obtain ⟨-, n, rfl⟩ := evaluates
  have wider := ((evaluation_apart 0 ctx n).1 e).wider s (Nat.zero_le _)
  rwa [run_evalExpr] at wider

private theorem Evaluates.back (evaluates : Evaluates ctx e s (.ok value t)) : t.scope = s.scope := by
  obtain ⟨-, n, ran⟩ := evaluates
  rw [← run_evalExpr] at ran
  exact ((evaluation_apart 0 ctx n).1 e).back (Nat.zero_le _) ran

private theorem Executes.wider (executes : Executes ctx stmt s r) : s.heap.Wider (last r).heap := by
  obtain ⟨-, n, rfl⟩ := executes
  have wider := ((evaluation_apart 0 ctx n).2 stmt).wider s (Nat.zero_le _)
  rwa [run_execStmt] at wider

private theorem Executes.back (executes : Executes ctx stmt s (.ok () t)) : t.scope = s.scope := by
  obtain ⟨-, n, ran⟩ := executes
  rw [← run_execStmt] at ran
  exact ((evaluation_apart 0 ctx n).2 stmt).back (Nat.zero_le _) ran

/-- Only a return leaves a return pending. -/
theorem Executes.idle (executes : Executes ctx stmt s (.ok () t)) (stays : stmt.returns = false)
    (idle : s.pending = none) : t.pending = none := by
  obtain ⟨-, n, ran⟩ := executes
  rw [← run_execStmt] at ran
  have disciplined := ((discipline ctx).evaluation n).2 false stmt fun leaves => stays.symm.trans leaves
  exact disciplined.idle rfl ran idle

private theorem evaluates_literal_iff {value : Literal} :
    Evaluates ctx (.literal value) s r ↔ r = .ok value.toValue s := by
  constructor
  · intro evaluates
    obtain ⟨whole, n, rfl⟩ := evaluates
    cases n with
    | zero => exact absurd rfl whole
    | succ n => rfl
  · rintro rfl
    exact ⟨trivial, 1, rfl⟩

end Evaluation

open Evaluation

/-- The parts of a for statement. -/
structure ForLoop where
  initializer : Option Stmt
  condition : Option Expr
  increment : Option Expr
  body : Stmt

namespace ForLoop

/-- The tree of the statement. -/
def tree (loop : ForLoop) : Stmt := .forLoop loop.initializer loop.condition loop.increment loop.body

/-- The first clause and the body are such as the grammar has them: a declaration of a variable or an expression, and a
statement. -/
structure Written (loop : ForLoop) : Prop where
  initializer : ∃ ts i j, Grammar.Derives .nearest (.forClause loop.initializer) ts i j
  body : ∃ isOpen ts i j, Grammar.Derives .nearest (.statement loop.body isOpen) ts i j

/-! What a for statement does. -/

/-- What is done in each round. -/
inductive Part
  | condition
  | body
  | increment

/-- A part whose turn it is, in a state. -/
structure Visit where
  part : Part
  state : State

section

variable (ctx : Context) (loop : ForLoop)

/-- The condition is true when it is absent. -/
inductive Tests : State → Conclusion Value → Prop where
  | absent (missing : loop.condition = none) : Tests s (.ok (.bool true) s)
  | present (given : loop.condition = some e) (evaluates : Evaluates ctx e s r) : Tests s r

/-- The value of the increment is dropped. -/
inductive Steps : State → Conclusion Unit → Prop where
  | absent (missing : loop.increment = none) : Steps s (.ok () s)
  | stops (given : loop.increment = some e) (stopped : Evaluates ctx e s (.error stop t)) : Steps s (.error stop t)
  | present (given : loop.increment = some e) (evaluates : Evaluates ctx e s (.ok value t)) : Steps s (.ok () t)

/-- With an increment, each round has one new and empty scope. -/
def inside (s : State) : State :=
  match loop.increment with
  | none => s
  | some _ => s.inner

/-- One round: the body, and then the increment unless a return is pending. -/
inductive Round : State → List Visit → Conclusion Unit → Prop where
  | stops (stopped : Executes ctx loop.body (loop.inside s) (.error stop t)) :
      Round s [⟨.body, loop.inside s⟩] (.error stop t)
  | returns (ran : Executes ctx loop.body (loop.inside s) (.ok () t)) (pending : t.pending.isSome = true) :
      Round s [⟨.body, loop.inside s⟩] (.ok () { t with scope := s.scope })
  | steps (ran : Executes ctx loop.body (loop.inside s) (.ok () t)) (free : t.pending = none)
      (steps : loop.Steps ctx t r) : Round s [⟨.body, loop.inside s⟩, ⟨.increment, t⟩] (leave s.scope r)

/-- The condition before each round, up to one for which it is not true or in which a return comes. -/
inductive Rounds : State → List Visit → Conclusion Unit → Prop where
  | stops (stopped : loop.Tests ctx s (.error stop t)) : Rounds s [⟨.condition, s⟩] (.error stop t)
  | done (tested : loop.Tests ctx s (.ok value t)) (falsy : value.truthy = false) :
      Rounds s [⟨.condition, s⟩] (.ok () t)
  | halts (tested : loop.Tests ctx s (.ok value t)) (truthy : value.truthy = true)
      (round : loop.Round ctx t log (.error stop u)) : Rounds s (⟨.condition, s⟩ :: log) (.error stop u)
  | returns (tested : loop.Tests ctx s (.ok value t)) (truthy : value.truthy = true)
      (round : loop.Round ctx t log (.ok () u)) (pending : u.pending.isSome = true) :
      Rounds s (⟨.condition, s⟩ :: log) (.ok () u)
  | again (tested : loop.Tests ctx s (.ok value t)) (truthy : value.truthy = true)
      (round : loop.Round ctx t log (.ok () u)) (free : u.pending = none) (rounds : Rounds u rest r) :
      Rounds s (⟨.condition, s⟩ :: (log ++ rest)) r

/-- The whole statement: the first clause is run once, in a scope of its own around all rounds. There are no rounds if a
return is pending after it. -/
inductive Runs : State → List Visit → Conclusion Unit → Prop where
  | bare (missing : loop.initializer = none) (rounds : loop.Rounds ctx s log r) : Runs s log r
  | stops (given : loop.initializer = some first) (stopped : Executes ctx first s.inner (.error stop t)) :
      Runs s [] (.error stop t)
  | returns (given : loop.initializer = some first) (ran : Executes ctx first s.inner (.ok () t))
      (pending : t.pending.isSome = true) : Runs s [] (.ok () { t with scope := s.scope })
  | goes (given : loop.initializer = some first) (ran : Executes ctx first s.inner (.ok () t)) (free : t.pending = none)
      (rounds : loop.Rounds ctx t log r) : Runs s log (leave s.scope r)

end

/-! The tree does the same. -/

/-- The condition of the tree's loop. -/
def test (loop : ForLoop) : Expr := loop.condition.getD (.literal (.bool true))

/-- The body of the tree's loop. -/
def round (loop : ForLoop) : Stmt :=
  match loop.increment with
  | none => loop.body
  | some step => .block [loop.body, .expression step]

variable {ctx : Context} {loop : ForLoop}

private theorem tests_iff : loop.Tests ctx s r ↔ Evaluates ctx loop.test s r := by
  unfold test
  constructor
  · intro tests
    cases tests with
    | absent missing =>
      rw [missing]
      exact evaluates_literal_iff.2 rfl
    | present given evaluates =>
      rw [given]
      exact evaluates
  · intro evaluates
    cases clause : loop.condition with
    | none =>
      rw [clause] at evaluates
      rw [evaluates_literal_iff.1 evaluates]
      exact .absent clause
    | some e =>
      rw [clause] at evaluates
      exact .present clause evaluates

/-- Without an increment a round stays in its scope, and the body leaves it as it was. -/
theorem round_iff_body (missing : loop.increment = none) :
    (∃ log, loop.Round ctx s log r) ↔ Executes ctx loop.body s r := by
  have here : loop.inside s = s := by rw [inside, missing]
  constructor
  · rintro ⟨log, round⟩
    cases round with
    | stops stopped =>
      rw [here] at stopped
      exact stopped
    | returns ran pending =>
      rw [here] at ran
      rw [← ran.back]
      exact ran
    | steps ran free steps =>
      rw [here] at ran
      cases steps with
      | absent _ =>
        rw [leave, ← ran.back]
        exact ran
      | stops given _ | present given _ => cases missing.symm.trans given
  · intro executes
    cases r with
    | error stop t =>
      refine ⟨_, .stops ?_⟩
      rw [here]
      exact executes
    | ok _ t =>
      have ran : Executes ctx loop.body (loop.inside s) (.ok () t) := by
        rw [here]
        exact executes
      cases pending : t.pending with
      | some value =>
        have returns := Round.returns ran (by rw [pending, Option.isSome_some])
        rw [← executes.back] at returns
        exact ⟨_, returns⟩
      | none =>
        have steps := Round.steps ran pending (.absent missing)
        rw [leave, ← executes.back] at steps
        exact ⟨_, steps⟩

private theorem steps_iff (given : loop.increment = some step) :
    loop.Steps ctx s r ↔ Executes ctx (.expression step) s r := by
  rw [executes_expression_iff]
  constructor
  · intro steps
    cases steps with
    | absent missing => cases missing.symm.trans given
    | stops other stopped =>
      cases other.symm.trans given
      exact .stops stopped
    | present other evaluates =>
      cases other.symm.trans given
      exact .goes evaluates rfl
  · intro chained
    cases chained with
    | stops stopped => exact .stops given stopped
    | goes evaluates same =>
      subst same
      exact .present given evaluates

/-- With an increment a round is a block of the body and the increment. -/
theorem round_iff_block (given : loop.increment = some step) :
    (∃ log, loop.Round ctx s log r) ↔ Executes ctx (.block [loop.body, .expression step]) s r := by
  have here : loop.inside s = s.inner := by rw [inside, given]
  rw [executes_pair_iff]
  constructor
  · rintro ⟨log, round⟩
    cases round with
    | stops stopped =>
      rw [here] at stopped
      exact ⟨_, .stops stopped, rfl⟩
    | returns ran pending =>
      rw [here] at ran
      exact ⟨_, .returns ran pending, rfl⟩
    | steps ran free steps =>
      rw [here] at ran
      exact ⟨_, .goes ran free ((steps_iff given).1 steps), rfl⟩
  · rintro ⟨r', sequence, rfl⟩
    rw [← here] at sequence
    cases sequence with
    | stops stopped => exact ⟨_, .stops stopped⟩
    | returns ran pending => exact ⟨_, .returns ran pending⟩
    | goes ran free next => exact ⟨_, .steps ran free ((steps_iff given).2 next)⟩

private theorem round_iff : (∃ log, loop.Round ctx s log r) ↔ Executes ctx loop.round s r := by
  unfold round
  split
  · rename_i missing
    exact round_iff_body missing
  · rename_i given
    exact round_iff_block given

/-- The rounds do what the tree's loop does: by induction on the rounds, each of which has a bound of its own. -/
theorem Rounds.executes (rounds : loop.Rounds ctx s log r) : Executes ctx (.loop loop.test loop.round) s r := by
  induction rounds with
  | stops stopped => exact executes_loop (.stops (tests_iff.1 stopped))
  | done tested falsy => exact executes_loop (.goes (tests_iff.1 tested) (.done falsy))
  | halts tested truthy round =>
    have stopped := round_iff.1 ⟨_, round⟩
    exact executes_loop (.goes (tests_iff.1 tested) (.goes truthy (.stops stopped)))
  | returns tested truthy round pending =>
    have ran := round_iff.1 ⟨_, round⟩
    exact executes_loop (.goes (tests_iff.1 tested) (.goes truthy (.returns ran pending)))
  | again tested truthy round free _ ih =>
    have ran := round_iff.1 ⟨_, round⟩
    exact executes_loop (.goes (tests_iff.1 tested) (.goes truthy (.goes ran free ih)))

/-- The tree's loop does nothing else: by induction on the bound, which each round makes smaller. -/
theorem exists_rounds (ran : execStmt ctx n (.loop loop.test loop.round) s = r) (whole : Whole r) :
    ∃ log, loop.Rounds ctx s log r := by
  induction n generalizing s with
  | zero =>
    subst ran
    exact absurd rfl whole
  | succ n ih =>
    cases loop_cases ran whole with
    | stops stopped => exact ⟨_, .stops (tests_iff.2 stopped)⟩
    | goes tested turn =>
      have tested := tests_iff.2 tested
      cases turn with
      | done falsy => exact ⟨_, .done tested falsy⟩
      | goes truthy next =>
        cases next with
        | stops stopped =>
          obtain ⟨log, round⟩ := round_iff.2 stopped
          exact ⟨_, .halts tested truthy round⟩
        | returns first pending =>
          obtain ⟨log, round⟩ := round_iff.2 first
          exact ⟨_, .returns tested truthy round pending⟩
        | goes first free next =>
          obtain ⟨log, round⟩ := round_iff.2 first
          obtain ⟨rest, rounds⟩ := ih next
          exact ⟨_, .again tested truthy round free rounds⟩

private theorem rounds_iff : (∃ log, loop.Rounds ctx s log r) ↔ Executes ctx (.loop loop.test loop.round) s r := by
  constructor
  · rintro ⟨log, rounds⟩
    exact rounds.executes
  · intro executes
    obtain ⟨whole, n, ran⟩ := executes
    exact exists_rounds ran whole

private theorem tree_bare (missing : loop.initializer = none) : loop.tree = .loop loop.test loop.round := by
  cases loop
  cases missing
  rfl

private theorem tree_block (given : loop.initializer = some first) :
    loop.tree = .block [first, .loop loop.test loop.round] := by
  cases loop
  cases given
  rfl

private theorem executes_tree_iff : Executes ctx loop.tree s r ↔ ∃ log, loop.Runs ctx s log r := by
  cases clause : loop.initializer with
  | none =>
    rw [tree_bare clause, ← rounds_iff]
    constructor
    · rintro ⟨log, rounds⟩
      exact ⟨log, .bare clause rounds⟩
    · rintro ⟨log, runs⟩
      cases runs with
      | bare _ rounds => exact ⟨log, rounds⟩
      | stops given _ | returns given _ _ | goes given _ _ _ => cases clause.symm.trans given
  | some first =>
    rw [tree_block clause, executes_pair_iff]
    constructor
    · rintro ⟨r', sequence, rfl⟩
      cases sequence with
      | stops stopped => exact ⟨_, .stops clause stopped⟩
      | returns ran pending => exact ⟨_, .returns clause ran pending⟩
      | goes ran free next =>
        obtain ⟨log, rounds⟩ := rounds_iff.2 next
        exact ⟨log, .goes clause ran free rounds⟩
    · rintro ⟨log, runs⟩
      cases runs with
      | bare missing _ => cases clause.symm.trans missing
      | stops given stopped =>
        cases clause.symm.trans given
        exact ⟨_, .stops stopped, rfl⟩
      | returns given ran pending =>
        cases clause.symm.trans given
        exact ⟨_, .returns ran pending, rfl⟩
      | goes given ran free rounds =>
        cases clause.symm.trans given
        exact ⟨_, .goes ran free (rounds_iff.1 ⟨log, rounds⟩), rfl⟩

/-! What the rounds see. -/

/-- The scope that is current where the rounds begin: that of the first clause, if there is one. -/
def home (loop : ForLoop) (s : State) : ScopeId :=
  match loop.initializer with
  | none => s.scope
  | some _ => s.heap.scopes.size

/-- How far out of the scope of a part this is. -/
def distance (loop : ForLoop) : Part → Nat
  | .condition => 0
  | .body | .increment =>
    match loop.increment with
    | none => 0
    | some _ => 1

/-- The moments of a part. -/
def moments (loop : ForLoop) (ctx : Context) (n : Nat) (visit : Visit) : List Moment :=
  match visit.part with
  | .condition =>
    match loop.condition with
    | none => []
    | some e => (Hosted.evalExpr ctx n e : Traced Value).trace visit.state
  | .body => (Hosted.execStmt ctx n loop.body : Traced Unit).trace visit.state
  | .increment =>
    match loop.increment with
    | none => []
    | some e => (Hosted.evalExpr ctx n e : Traced Value).trace visit.state

/-- A part in whose turn the heap has grown from this one, and that has this scope at its distance. -/
structure Sees (loop : ForLoop) (h : Heap) (home : ScopeId) (visit : Visit) : Prop where
  wider : h.Wider visit.state.heap
  ancestor : visit.state.heap.ancestor? (loop.distance visit.part) visit.state.scope = some home

private theorem inner_scope (s : State) : s.inner.scope < s.inner.heap.scopes.size := Heap.lt_newScope ..

private theorem inner_parent (s : State) : (s.inner.heap.scope s.inner.scope).parent = some s.scope := by
  simp only [State.inner]
  rw [Heap.scope_newScope, if_pos rfl]

private theorem ancestor?_one (h : Heap) (k : ScopeId) : h.ancestor? 1 k = (h.scope k).parent := by
  simp only [Heap.ancestor?]
  cases (h.scope k).parent <;> rfl

private theorem inside_wider (loop : ForLoop) (s : State) : s.heap.Wider (loop.inside s).heap := by
  unfold inside
  split
  · exact .refl _
  · exact .newScope ..

/-- In the scope of a round, and in what the heap has become there. -/
theorem inside_ancestor (loop : ForLoop) {s t : State} (wider : (loop.inside s).heap.Wider t.heap)
    (back : t.scope = (loop.inside s).scope) : t.heap.ancestor? (loop.distance .body) t.scope = some s.scope := by
  rw [back]
  simp only [distance]
  cases clause : loop.increment with
  | none =>
    rw [inside, clause]
    rfl
  | some e =>
    rw [inside, clause] at wider ⊢
    simp only [ancestor?_one]
    rw [wider.parent (inner_scope s), inner_parent]

private theorem Round.sees (round : loop.Round ctx s log r) : ∀ visit ∈ log, loop.Sees s.heap s.scope visit := by
  have body : loop.Sees s.heap s.scope ⟨.body, loop.inside s⟩ :=
    ⟨inside_wider loop s, inside_ancestor loop (.refl _) rfl⟩
  intro visit member
  cases round with
  | stops _ | returns _ _ =>
    rw [List.mem_singleton.1 member]
    exact body
  | steps ran _ _ =>
    rcases List.mem_cons.1 member with rfl | member
    · exact body
    · rw [List.mem_singleton.1 member]
      exact ⟨(inside_wider loop s).trans ran.wider, inside_ancestor loop ran.wider ran.back⟩

private theorem Rounds.sees (rounds : loop.Rounds ctx s log r) : ∀ visit ∈ log, loop.Sees s.heap s.scope visit := by
  have test : ∀ s, loop.Sees s.heap s.scope ⟨.condition, s⟩ := fun s => ⟨.refl _, rfl⟩
  -- what a round sees from the state after the test, it sees from the one before
  have after : ∀ {s value t log r}, loop.Tests ctx s (.ok value t) → loop.Round ctx t log r →
      ∀ visit ∈ log, loop.Sees s.heap s.scope visit := by
    intro s value t log r tested round visit member
    have evaluates := tests_iff.1 tested
    have sees := round.sees visit member
    rw [evaluates.back] at sees
    exact ⟨evaluates.wider.trans sees.wider, sees.ancestor⟩
  induction rounds with
  | stops _ | done _ _ =>
    intro visit member
    rw [List.mem_singleton.1 member]
    exact test _
  | halts tested _ round | returns tested _ round _ =>
    intro visit member
    rcases List.mem_cons.1 member with rfl | member
    · exact test _
    · exact after tested round visit member
  | again tested _ round _ _ ih =>
    intro visit member
    rcases List.mem_cons.1 member with rfl | member
    · exact test _
    rcases List.mem_append.1 member with early | late
    · exact after tested round visit early
    · have evaluates := tests_iff.1 tested
      have ran := round_iff.1 ⟨_, round⟩
      have sees := ih visit late
      rw [ran.back, evaluates.back] at sees
      exact ⟨(evaluates.wider.trans ran.wider).trans sees.wider, sees.ancestor⟩

/-- A variable that is declared is bound in the scope that its declaration is run in. -/
theorem bound_of_declare (executes : Executes ctx (.declare name value) s (.ok () t))
    (inside : s.scope < s.heap.scopes.size) : (t.heap.scope t.scope).bindings.contains name.text = true := by
  have defined : ∀ {u : State} {v : Value}, u.scope < u.heap.scopes.size →
      ((u.heap.define u.scope name.text v).scope u.scope).bindings.contains name.text = true := by
    intro u v within
    rw [Heap.scope_define u.heap within, if_pos rfl, Table.contains_insert, decide_eq_true rfl, Bool.true_or]
  obtain ⟨-, n, ran⟩ := executes
  cases n with
  | zero => cases ran
  | succ n =>
    cases value with
    | none =>
      cases ran
      exact defined inside
    | some e =>
      obtain ⟨v, u, evaluated, ended⟩ := bind_eq_ok ran
      have evaluates : Evaluates ctx e s (.ok v u) := ⟨trivial, n, evaluated⟩
      cases ended
      apply defined
      rw [evaluates.back]
      exact Nat.lt_of_lt_of_le inside evaluates.wider.scopes

/-! What is declared in the rounds. -/

private theorem declares_forLoop {stmt : Stmt} (plain : stmt.declares = []) (first : Option Stmt)
    (test step : Option Expr) :
    (Stmt.forLoop first test step stmt).declares = [] := by
  cases first with
  | some clause => rfl
  | none =>
    cases step with
    | some e => rfl
    | none => exact plain

/-- A statement of the grammar declares nothing in the scope it stands in. -/
theorem declares_of_statement (derived : Grammar.Derives rule (.statement stmt isOpen) ts i j) :
    stmt.declares = [] := by
  generalize shape : Grammar.Phrase.statement stmt isOpen = phrase at derived
  induction derived generalizing stmt isOpen with
  | expression | print | ret | block =>
    cases shape
    rfl
  | whileLoop _ _ _ _ _ _ ih | ifOnly _ _ _ _ _ _ ih =>
    cases shape
    rw [Stmt.declares]
    exact ih rfl
  | ifElse _ _ _ _ _ _ _ _ _ ih ih' =>
    cases shape
    rw [Stmt.declares, ih rfl, ih' rfl, List.append_nil]
  | forLoop _ _ _ _ _ _ _ _ _ _ _ ih =>
    cases shape
    exact declares_forLoop (ih rfl) ..
  | _ => cases shape

/-- Neither a declaration of a variable nor an expression returns. -/
theorem returns_of_forClause (derived : Grammar.Derives rule (.forClause (some first)) ts i j) :
    first.returns = false := by
  cases derived with
  | variableClause _ decl => cases decl <;> rfl
  | expressionClause _ _ => rfl

/-- What a part of a round declares, it declares in scopes that were not there when its turn came. -/
theorem moments_apart (plain : loop.body.declares = []) (inside : base ≤ visit.state.heap.scopes.size) (n : Nat) :
    ∀ moment ∈ loop.moments ctx n visit, moment.DeclaresFrom base := by
  obtain ⟨evals, execs⟩ := evaluation_apart base ctx n
  intro moment member
  unfold moments at member
  split at member
  · split at member
    · cases member
    · exact (evals _).apart visit.state inside False.elim moment member
  · exact (execs _).apart visit.state inside (fun declares => absurd plain declares) moment member
  · split at member
    · cases member
    · exact (evals _).apart visit.state inside False.elim moment member

/-- The rounds begin in the scope of the first clause, which is there to stay. -/
theorem Runs.sees (runs : loop.Runs ctx s log r) : ∀ visit ∈ log,
    visit.state.heap.ancestor? (loop.distance visit.part) visit.state.scope = some (loop.home s) ∧
    (loop.initializer ≠ none → loop.home s < visit.state.heap.scopes.size) ∧
    ∀ name value, loop.initializer = some (.declare name value) →
      (visit.state.heap.scope (loop.home s)).bindings.contains name.text = true := by
  intro visit member
  cases runs with
  | bare missing rounds =>
    have sees := rounds.sees visit member
    rw [home, missing]
    exact ⟨sees.ancestor, fun given => absurd rfl given, nofun⟩
  | stops _ _ | returns _ _ _ => cases member
  | goes given ran free rounds =>
    have sees := rounds.sees visit member
    have here : loop.home s = s.inner.scope := by
      rw [home, given]
      rfl
    rw [here]
    refine ⟨ran.back ▸ sees.ancestor, fun _ => ?_, fun name value clause => ?_⟩
    · exact Nat.lt_of_lt_of_le (inner_scope s) (ran.wider.trans sees.wider).scopes
    · cases given.symm.trans clause
      apply sees.wider.bound
      rw [← ran.back]
      exact bound_of_declare ran (inner_scope s)

end ForLoop

/-- For statements mean what they say. From every state, the tree of a for statement comes to what the statement says
and to nothing else, be it an end or a stop; at a normal end the current scope is the one at the start. Whenever one of
its parts has its turn, in whichever round, the scope in which the rounds began is at the same distance from the part,
and there it is that the variable of the first clause is found. Whatever a part declares, in its own code or in that of
a function it calls, it declares in a scope that is newer; and the body enters no names into the scope around it when it
is resolved. The first clause leaves no return pending. -/
theorem for_loops_mean_what_they_say (ctx : Context) (loop : ForLoop) (written : loop.Written) (s : State) :
    (∀ r, Executes ctx loop.tree s r ↔ ∃ log, loop.Runs ctx s log r) ∧
    (∀ t, Executes ctx loop.tree s (.ok () t) → t.scope = s.scope) ∧
    (∀ log r, loop.Runs ctx s log r → ∀ visit ∈ log,
      visit.state.heap.ancestor? (loop.distance visit.part) visit.state.scope = some (loop.home s) ∧
      (∀ name value, loop.initializer = some (.declare name value) →
        visit.state.heap.slotAt visit.state.scope (loop.distance visit.part) name.text = .ok (loop.home s)) ∧
      (loop.initializer ≠ none →
        ∀ n, ∀ moment ∈ loop.moments ctx n visit, moment.DeclaresFrom (loop.home s + 1))) ∧
    (∀ around resolver, (loop.body.resolve around resolver).scopes = resolver.scopes) ∧
    (s.pending = none → ∀ first t, loop.initializer = some first → Executes ctx first s.inner (.ok () t) →
      t.pending = none) := by
  obtain ⟨⟨_, _, _, clause⟩, ⟨_, _, _, _, statement⟩⟩ := written
  have plain := ForLoop.declares_of_statement statement
  refine ⟨fun r => ForLoop.executes_tree_iff, fun t executes => executes.back, ?_, ?_, ?_⟩
  · intro log r runs visit member
    obtain ⟨ancestor, inside, bound⟩ := runs.sees visit member
    refine ⟨ancestor, fun name value given => ?_, fun given n => ?_⟩
    · simp only [Heap.slotAt, ancestor, if_pos (bound name value given)]
    · exact ForLoop.moments_apart plain (inside given) n
  · intro around resolver
    rw [Stmt.resolve_enters, plain]
    rfl
  · intro idle first t given executes
    rw [given] at clause
    exact executes.idle (ForLoop.returns_of_forClause clause) idle

/-- The body declares a variable of the same name as the first clause, which the increment assigns to and the condition
reads. -/
theorem for_loops_mean_what_they_say_when_shadowed :
    let done : Ident := ⟨Text.ofString "done", 1⟩
    let loop : ForLoop := ⟨some (.declare done none), some (.unary .not 1 (.use ⟨1, done⟩)),
      some (.assign ⟨2, done⟩ (.literal (.bool true))), .block [.declare done none]⟩
    let ctx : Context := ⟨(resolve ∅ [loop.tree]).locals, none, fun _ => 0⟩
    let s := State.start .initial 0
    loop.Written ∧ ∃ log t, loop.Runs ctx s log (.ok () t) ∧ t.scope = s.scope ∧
      (∀ visit ∈ log, visit.state.heap.slotAt visit.state.scope (loop.distance visit.part) done.text = .ok 1) ∧
      (t.heap.find? 1 done.text).map Value.truthy = some true := by
  intro done loop ctx s
  have written : loop.Written := by
    let keyword : Token := ⟨.kwVar, [], 1⟩
    let name : Token := ⟨.identifier, Text.ofString "done", 1⟩
    let mark : Token := ⟨.semicolon, [], 1⟩
    let left : Token := ⟨.leftBrace, [], 1⟩
    let right : Token := ⟨.rightBrace, [], 1⟩
    have decl : Grammar.Derives .nearest (.variableDecl (.declare name.ident none)) [name, mark] 0 0 :=
      .bareVariable rfl rfl
    have clause : Grammar.Derives .nearest (.forClause (some (.declare done none))) [keyword, name, mark] 0 0 :=
      .variableClause rfl decl
    have body : Grammar.Derives .nearest (.statement (.block [.declare done none]) false)
        [left, keyword, name, mark, right] 0 0 :=
      .block rfl (.moreDeclarations (.variableDeclaration rfl decl) .noDeclarations) rfl
    exact ⟨⟨_, _, _, clause⟩, ⟨_, _, _, _, body⟩⟩
  obtain ⟨same, back, rounds, -, -⟩ := for_loops_mean_what_they_say ctx loop written s
  have comes : (execStmt ctx 20 loop.tree).run' s = some () := by decide +kernel
  have value : ((last (execStmt ctx 20 loop.tree s)).heap.find? 1 done.text).map Value.truthy = some true := by
    decide +kernel
  obtain ⟨t, ran⟩ := eq_ok_of_run' comes
  rw [ran] at value
  have executes : Executes ctx loop.tree s (.ok () t) := ⟨trivial, 20, ran⟩
  obtain ⟨log, runs⟩ := (same _).1 executes
  refine ⟨written, log, t, runs, back t executes, fun visit member => ?_, value⟩
  exact (rounds log _ runs visit member).2.1 done none rfl

end Lox
