import Lox.Proofs.Evaluation.Cutoff
import Lox.Proofs.Evaluation.Moments

/-! What evaluation comes to. The bound of the evaluator only says how long to wait: once it is large enough, the end is
the same under every greater one. So expressions and statements have ends, and what a statement comes to is told by what
its parts come to, with no bound in it. -/
namespace Lox.Evaluation

abbrev Conclusion (α : Type) := EStateM.Result Stop State α

/-- An end that does not come for want of a bound. -/
def Whole : Conclusion α → Prop
  | .ok _ _ => True
  | .error stop _ => stop ≠ .exhausted

/-- One part after the other: what the first one comes to decides about the second. -/
inductive Chained (X : State → Conclusion α → Prop) (Y : α → State → Conclusion β → Prop) :
    State → Conclusion β → Prop where
  | stops (stopped : X s (.error stop t)) : Chained X Y s (.error stop t)
  | goes (first : X s (.ok a t)) (next : Y a t r) : Chained X Y s r

/-- One part after the other, unless the first one returns. -/
inductive Sequence (X Y : State → Conclusion Unit → Prop) : State → Conclusion Unit → Prop where
  | stops (stopped : X s (.error stop t)) : Sequence X Y s (.error stop t)
  | returns (first : X s (.ok () t)) (pending : t.pending.isSome = true) : Sequence X Y s (.ok () t)
  | goes (first : X s (.ok () t)) (free : t.pending = none) (next : Y t r) : Sequence X Y s r

/-- After the test of a loop: the body and then the loop again, or nothing more. -/
inductive Turn (X Y : State → Conclusion Unit → Prop) (value : Value) : State → Conclusion Unit → Prop where
  | done (falsy : value.truthy = false) : Turn X Y value t (.ok () t)
  | goes (truthy : value.truthy = true) (next : Sequence X Y t r) : Turn X Y value t r

/-- Back in a scope, unless evaluation has stopped. -/
def leave (scope : ScopeId) : Conclusion Unit → Conclusion Unit
  | .ok _ t => .ok () { t with scope }
  | .error stop t => .error stop t

private theorem whole_leave {r : Conclusion Unit} : Whole (leave scope r) ↔ Whole r := by
  cases r <;> exact Iff.rfl

/-! A single bound. -/

private theorem bind_eq_iff {x : Eval α} {f : α → Eval β} :
    (x >>= f) s = r ↔ Chained (fun s r => x s = r) (fun a s r => f a s = r) s r := by
  simp only [Bind.bind, EStateM.bind]
  constructor
  · intro ran
    cases first : x s with
    | ok a t =>
      rw [first] at ran
      exact .goes first ran
    | error stop t =>
      rw [first] at ran
      cases ran
      exact .stops first
  · intro chained
    cases chained with
    | stops stopped => rw [stopped]
    | goes first next => rw [first, ← next]

private theorem andThen_eq_iff {x y : Eval Unit} :
    Host.andThen x y s = r ↔ Sequence (fun s r => x s = r) (fun s r => y s = r) s r := by
  constructor
  · intro ran
    cases bind_eq_iff.1 ran with
    | stops stopped => exact .stops stopped
    | @goes _ t _ first next =>
      by_cases pending : t.pending.isSome = true
      · rw [if_pos pending] at next
        cases next
        exact .returns first pending
      · rw [if_neg pending] at next
        exact .goes first (by simpa using pending) next
  · intro sequence
    cases sequence with
    | stops stopped => exact bind_eq_iff.2 (.stops stopped)
    | returns first pending => exact bind_eq_iff.2 (.goes first (if_pos pending))
    | goes first free next =>
      refine bind_eq_iff.2 (.goes first ?_)
      rw [free]
      exact next

private theorem inScope_eq (scope : ScopeId) (x : Eval Unit) (s : State) :
    inScope scope x s = leave s.scope (x { s with scope }) := by
  unfold inScope
  simp only
  cases x { s with scope } <;> rfl

/-! All bounds. -/

/-- Computations under greater and greater bounds: each does what the next one does, or is used up. -/
def Growing (x : Nat → Eval α) : Prop := ∀ n, CutBy (· = .exhausted) (x n) (x (n + 1))

/-- What computations under greater and greater bounds come to. -/
structure Reaches (x : Nat → Eval α) (s : State) (r : Conclusion α) : Prop where
  whole : Whole r
  reached : ∃ n, x n s = r

/-- What an expression comes to. -/
def Evaluates (ctx : Context) (e : Expr) : State → Conclusion Value → Prop := Reaches fun n => evalExpr ctx n e

/-- What a statement comes to. -/
def Executes (ctx : Context) (stmt : Stmt) : State → Conclusion Unit → Prop := Reaches fun n => execStmt ctx n stmt

private theorem evalExpr_growing (ctx : Context) (e : Expr) : Growing fun n => evalExpr ctx n e :=
  fun n => (evaluation_cut_by_bound ctx n).1 e

private theorem execStmt_growing (ctx : Context) (stmt : Stmt) : Growing fun n => execStmt ctx n stmt :=
  fun n => (evaluation_cut_by_bound ctx n).2 stmt

private theorem Growing.eq {x : Nat → Eval α} (growing : Growing x) (less : n ≤ m) (whole : Whole (x n s)) :
    x m s = x n s := by
  induction less with
  | refl => rfl
  | @step m _ ih =>
    refine ((growing m).eq fun stop t stopped used => ?_).trans ih
    rw [ih] at stopped
    rw [stopped] at whole
    exact whole used

/-- From some bound on, the end is the same. -/
theorem Reaches.eventually {x : Nat → Eval α} (growing : Growing x) (reaches : Reaches x s r) :
    ∃ n, ∀ m, n ≤ m → x m s = r := by
  obtain ⟨whole, n, rfl⟩ := reaches
  exact ⟨n, fun m less => growing.eq less whole⟩

/-- A family whose members under greater bounds are put together from those of others in the same way. -/
theorem reaches_succ {x : Nat → Eval α} (growing : Growing x) : Reaches (fun n => x (n + 1)) s r ↔ Reaches x s r := by
  constructor
  · intro reaches
    obtain ⟨whole, n, ran⟩ := reaches
    exact ⟨whole, n + 1, ran⟩
  · intro reaches
    obtain ⟨n, late⟩ := reaches.eventually growing
    exact ⟨reaches.whole, n, late _ (Nat.le_succ n)⟩

section

variable {x : Nat → Eval α} {f : Nat → α → Eval β}

private theorem reaches_bind (growing : Growing x) (grows : ∀ a, Growing (f · a)) :
    Reaches (fun n => x n >>= f n) s r ↔ Chained (Reaches x) (fun a => Reaches (f · a)) s r := by
  constructor
  · intro reaches
    obtain ⟨whole, n, ran⟩ := reaches
    cases bind_eq_iff.1 ran with
    | stops stopped => exact .stops ⟨whole, n, stopped⟩
    | goes first next => exact .goes ⟨trivial, n, first⟩ ⟨whole, n, next⟩
  · intro chained
    cases chained with
    | stops stopped =>
      obtain ⟨whole, n, stopped⟩ := stopped
      exact ⟨whole, n, bind_eq_iff.2 (.stops stopped)⟩
    | @goes a _ _ first next =>
      obtain ⟨n, late⟩ := first.eventually growing
      obtain ⟨m, late'⟩ := next.eventually (grows a)
      refine ⟨next.whole, max n m, bind_eq_iff.2 (.goes (late _ (Nat.le_max_left n m)) ?_)⟩
      exact late' _ (Nat.le_max_right n m)

end

section

variable {x y : Nat → Eval Unit}

private theorem reaches_andThen (growing : Growing x) (grows : Growing y) :
    Reaches (fun n => Host.andThen (x n) (y n)) s r ↔ Sequence (Reaches x) (Reaches y) s r := by
  constructor
  · intro reaches
    obtain ⟨whole, n, ran⟩ := reaches
    cases andThen_eq_iff.1 ran with
    | stops stopped => exact .stops ⟨whole, n, stopped⟩
    | returns first pending => exact .returns ⟨trivial, n, first⟩ pending
    | goes first free next => exact .goes ⟨trivial, n, first⟩ free ⟨whole, n, next⟩
  · intro sequence
    cases sequence with
    | stops stopped =>
      obtain ⟨whole, n, stopped⟩ := stopped
      exact ⟨whole, n, andThen_eq_iff.2 (.stops stopped)⟩
    | returns first pending =>
      obtain ⟨whole, n, first⟩ := first
      exact ⟨whole, n, andThen_eq_iff.2 (.returns first pending)⟩
    | goes first free next =>
      obtain ⟨n, late⟩ := first.eventually growing
      obtain ⟨m, late'⟩ := next.eventually grows
      refine ⟨next.whole, max n m, andThen_eq_iff.2 (.goes (late _ (Nat.le_max_left n m)) free ?_)⟩
      exact late' _ (Nat.le_max_right n m)

end

/-! Statements. -/

/-- In a new and empty scope inside the current one. -/
def State.inner (s : State) : State :=
  { s with heap := (s.heap.newScope (some s.scope) []).2, scope := s.heap.scopes.size }

private theorem andThen_pure (x : Eval Unit) : Host.andThen x (pure ()) = x := by
  funext s
  refine andThen_eq_iff.2 ?_
  cases ran : x s with
  | error stop t => exact .stops ran
  | ok _ t =>
    cases pending : t.pending with
    | some value => exact .returns ran (by rw [pending, Option.isSome_some])
    | none => exact .goes ran pending rfl

private theorem execStmt_pair (ctx : Context) (n : Nat) (first second : Stmt) (s : State) :
    execStmt ctx (n + 1) (.block [first, second]) s =
      leave s.scope (Host.andThen (execStmt ctx n first) (execStmt ctx n second) s.inner) := by
  rw [execStmt, ← execStep_eq, Hosted.execStep, Hosted.runAll, Hosted.runAll, Hosted.runAll, andThen_pure]
  exact inScope_eq _ _ _

private theorem execStmt_loop (ctx : Context) (n : Nat) (condition : Expr) (body : Stmt) :
    execStmt ctx (n + 1) (.loop condition body) = evalExpr ctx n condition >>= fun value =>
      if value.truthy then Host.andThen (execStmt ctx n body) (execStmt ctx n (.loop condition body)) else pure () := by
  rw [execStmt, ← execStep_eq, Hosted.execStep]

/-- Two statements in a block of their own. -/
theorem executes_pair_iff :
    Executes ctx (.block [first, second]) s r ↔
      ∃ r', Sequence (Executes ctx first) (Executes ctx second) s.inner r' ∧ r = leave s.scope r' := by
  have growing := execStmt_growing ctx (.block [first, second])
  have parts (r') := reaches_andThen (s := s.inner) (r := r') (execStmt_growing ctx first) (execStmt_growing ctx second)
  constructor
  · intro executes
    obtain ⟨whole, n, ran⟩ := (reaches_succ growing).2 executes
    rw [execStmt_pair] at ran
    subst ran
    exact ⟨_, (parts _).1 ⟨whole_leave.1 whole, n, rfl⟩, rfl⟩
  · rintro ⟨r', sequence, rfl⟩
    obtain ⟨whole, n, ran⟩ := (parts r').2 sequence
    refine (reaches_succ growing).1 ⟨whole_leave.2 whole, n, ?_⟩
    rw [execStmt_pair, ran]

/-- An expression whose value is dropped. -/
theorem executes_expression_iff :
    Executes ctx (.expression e) s r ↔ Chained (Evaluates ctx e) (fun _ t r => r = .ok () t) s r := by
  have dropped : Reaches (fun _ => (pure () : Eval Unit)) = fun t r => r = .ok () t := by
    funext t r
    apply propext
    constructor
    · intro reaches
      obtain ⟨-, -, rfl⟩ := reaches
      rfl
    · rintro rfl
      exact ⟨trivial, 0, rfl⟩
  have parts := reaches_bind (s := s) (r := r) (f := fun _ _ => pure ()) (evalExpr_growing ctx e) fun _ _ => .refl _
  rw [dropped] at parts
  exact (reaches_succ (execStmt_growing ctx (.expression e))).symm.trans parts

/-- What a loop comes to under some bound: its parts come to what they do, and the rest of it is under a smaller
bound. -/
theorem loop_cases (ran : execStmt ctx (n + 1) (.loop condition body) s = r) (whole : Whole r) :
    Chained (Evaluates ctx condition)
      (Turn (Executes ctx body) fun s r => execStmt ctx n (.loop condition body) s = r) s r := by
  rw [execStmt_loop] at ran
  cases bind_eq_iff.1 ran with
  | stops stopped => exact .stops ⟨whole, n, stopped⟩
  | @goes value t _ tested next =>
    refine .goes ⟨trivial, n, tested⟩ ?_
    cases truth : value.truthy with
    | false =>
      rw [truth] at next
      subst next
      exact .done truth
    | true =>
      rw [truth] at next
      refine .goes truth ?_
      cases andThen_eq_iff.1 next with
      | stops stopped => exact .stops ⟨whole, n, stopped⟩
      | returns first pending => exact .returns ⟨trivial, n, first⟩ pending
      | goes first free again => exact .goes ⟨trivial, n, first⟩ free again

/-- A loop does what its parts do and then what it does itself. -/
theorem executes_loop
    (chained : Chained (Evaluates ctx condition) (Turn (Executes ctx body) (Executes ctx (.loop condition body))) s r) :
    Executes ctx (.loop condition body) s r := by
  have growing := execStmt_growing ctx (.loop condition body)
  have grows := execStmt_growing ctx body
  have parts := reaches_bind (s := s) (r := r) (evalExpr_growing ctx condition)
    (f := fun n value => if value.truthy then
      Host.andThen (execStmt ctx n body) (execStmt ctx n (.loop condition body)) else pure ()) ?_
  · refine (reaches_succ growing).1 ?_
    simp only [execStmt_loop]
    refine parts.2 ?_
    cases chained with
    | stops stopped => exact .stops stopped
    | @goes value t _ tested turn =>
      refine .goes tested ?_
      cases turn with
      | done falsy =>
        refine ⟨trivial, 0, ?_⟩
        rw [falsy]
        rfl
      | goes truthy next =>
        simp only [truthy, if_true]
        exact (reaches_andThen grows growing).2 next
  · intro value n
    simp only
    split
    · exact (grows n).andThen (growing n)
    · exact .refl _

end Lox.Evaluation
