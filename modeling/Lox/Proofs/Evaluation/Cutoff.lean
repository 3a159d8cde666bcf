import Lox.Proofs.Evaluation.Hosting

/-! Limits that only cut off. An evaluation with a smaller bound, or with a lower limit on the depth of
calls, does what the one with more room does for as long as it goes on: the two part only where the
first one stops, used up or with a stack overflow. -/
namespace Lox.Evaluation

/-- One computation does all that another does, or else is cut off by a stop of a certain kind. -/
def CutBy (off : Stop → Prop) (x y : Eval α) : Prop :=
  ∀ s, (∃ stop t, x s = .error stop t ∧ off stop) ∨ y s = x s

namespace CutBy

variable {off : Stop → Prop} {x y : Eval α}

theorem refl (x : Eval α) : CutBy off x x := fun _ => .inr rfl

private theorem trans {z : Eval α} (first : CutBy off x y) (next : CutBy off y z) : CutBy off x z := by
  intro s
  rcases first s with cut | same
  · exact .inl cut
  · rw [← same]
    exact next s

private theorem throw {stop : Stop} (cut : off stop) (y : Eval α) : CutBy off (throw stop) y :=
  fun s => .inl ⟨stop, s, rfl, cut⟩

/-- Without the stop that cuts off, the two agree. -/
theorem eq (cut : CutBy off x y) (whole : ∀ stop t, x s = .error stop t → ¬ off stop) : y s = x s := by
  rcases cut s with ⟨stop, t, stopped, reached⟩ | same
  · exact absurd reached (whole stop t stopped)
  · exact same

private theorem bind {f g : α → Eval β} (first : CutBy off x y) (next : ∀ a, CutBy off (f a) (g a)) :
    CutBy off (x >>= f) (y >>= g) := by
  intro s
  simp only [Bind.bind, EStateM.bind]
  rcases first s with ⟨stop, t, stopped, reached⟩ | same
  · rw [stopped]
    exact .inl ⟨stop, t, rfl, reached⟩
  · rw [same]
    cases x s with
    | ok a t => exact next a t
    | error stop t => exact .inr rfl

private theorem inScope {x y : Eval Unit} (inner : CutBy off x y) (scope : ScopeId) :
    CutBy off (inScope scope x) (inScope scope y) := by
  intro s
  simp only [Evaluation.inScope]
  rcases inner { s with scope } with ⟨stop, t, stopped, reached⟩ | same
  · rw [stopped]
    exact .inl ⟨stop, t, rfl, reached⟩
  · rw [same]
    exact .inr rfl

private theorem nested {x y : Eval Value} (inner : CutBy off x y) : CutBy off (nested x) (nested y) := by
  intro s
  simp only [Evaluation.nested]
  rcases inner { s with depth := s.depth + 1 } with ⟨stop, t, stopped, reached⟩ | same
  · rw [stopped]
    exact .inl ⟨stop, t, rfl, reached⟩
  · rw [same]
    exact .inr rfl

theorem andThen {x y x' y' : Eval Unit} (first : CutBy off x y) (next : CutBy off x' y') :
    CutBy off (Host.andThen x x') (Host.andThen y y') := by
  refine first.bind fun _ s => ?_
  by_cases pending : s.pending.isSome = true
  · simp only [if_pos pending]
    exact .inr trivial
  · simp only [if_neg pending]
    exact next s

end CutBy

/-- Cutting off is a correspondence of the evaluator with itself. -/
def cutting (off : Stop → Prop) (ctx : Context) : Correspondence Eval Eval ctx where
  Values := CutBy off
  Effects _ := CutBy off
  pure _ := .refl _
  bind := .bind
  step _ := .refl _
  call next := (CutBy.refl _).bind fun callable => (next callable).nested
  body inner := inner.bind fun _ => .refl _
  declare := .refl _
  start := id
  effects := id
  values := id
  after := .bind
  within inner := inner.inScope _
  andThen := .andThen
  ret _ := .refl _
  startEffects := id

section

variable {off : Stop → Prop} {eval eval' : Expr → Eval Value} {exec exec' : Stmt → Eval Unit}
  (evals : ∀ e, CutBy off (eval e) (eval' e)) (execs : ∀ stmt, CutBy off (exec stmt) (exec' stmt))

include evals execs

private theorem evalStep_cut (ctx : Context) (e : Expr) :
    CutBy off (evalStep ctx eval exec e) (evalStep ctx eval' exec' e) := by
  rw [← evalStep_eq, ← evalStep_eq]
  exact (cutting off ctx).evalStep evals execs e

private theorem execStep_cut (ctx : Context) (stmt : Stmt) :
    CutBy off (execStep ctx eval exec stmt) (execStep ctx eval' exec' stmt) := by
  have allowed : stmt.returns = true → true = true := fun _ => rfl
  rw [← execStep_eq, ← execStep_eq]
  exact (cutting off ctx).execStep evals allowed fun other _ => execs other

end

theorem execProgram_cut {ctx ctx' : Context} (execs : ∀ stmt, CutBy off (execStmt ctx n stmt) (execStmt ctx' m stmt))
    (stmts : List Stmt) : CutBy off (execProgram ctx n stmts) (execProgram ctx' m stmts) := by
  induction stmts with
  | nil => exact .refl _
  | cons stmt rest ih => exact (execs stmt).bind fun _ => ih

/-! Bounds. -/

/-- A greater bound changes nothing but where evaluation is used up. -/
theorem evaluation_cut_by_bound (ctx : Context) (n : Nat) :
    (∀ e, CutBy (· = .exhausted) (evalExpr ctx n e) (evalExpr ctx (n + 1) e)) ∧
      ∀ stmt, CutBy (· = .exhausted) (execStmt ctx n stmt) (execStmt ctx (n + 1) stmt) := by
  induction n with
  | zero =>
    constructor
    · intro e
      apply CutBy.throw
      rfl
    · intro stmt
      apply CutBy.throw
      rfl
  | succ n ih => exact ⟨evalStep_cut ih.1 ih.2 ctx, execStep_cut ih.1 ih.2 ctx⟩

theorem execProgram_cut_by_bound (ctx : Context) (stmts : List Stmt) (less : n ≤ m) :
    CutBy (· = .exhausted) (execProgram ctx n stmts) (execProgram ctx m stmts) := by
  induction less with
  | refl => exact .refl _
  | step _ ih => exact ih.trans (execProgram_cut (evaluation_cut_by_bound ctx _).2 stmts)

/-! Limits on the depth of calls. -/

/-- A stop for want of depth. -/
def Stop.Overflow : Stop → Prop
  | .fault f => f.cause = .stackOverflow
  | .breach _ | .exhausted => False

/-- Wherever the second limit is reached, the first one is. -/
def Roomier (limit limit' : Option Nat) : Prop :=
  ∀ most' ∈ limit', ∃ most ∈ limit, most ≤ most'

private theorem Roomier.reached (roomier : Roomier ctx.limit limit)
    (reached : limitReached { ctx with limit } depth = true) :
    limitReached ctx depth = true := by
  cases limit with
  | none => cases reached
  | some most' =>
    obtain ⟨most, same, less⟩ := roomier most' rfl
    simp only [limitReached, Option.mem_def.1 same]
    exact decide_eq_true (Nat.le_trans less (of_decide_eq_true reached))

private theorem invoke_limit (ctx : Context) (limit : Option Nat) (exec : Stmt → Eval Unit) (callable : Callable)
    (args : List Value) : invoke { ctx with limit } exec callable args = invoke ctx exec callable args := by
  cases callable with
  | construct c initializer => cases initializer <;> rfl
  | _ => rfl

section

variable {ctx : Context} {limit : Option Nat} (roomier : Roomier ctx.limit limit)

include roomier

/-- The limit is read by calls, which overflow at the lower one first. -/
theorem callValue_cut_by_limit (exec : Stmt → Eval Unit) (callee : Value) (args : List Value) (line : Nat) :
    CutBy Stop.Overflow (callValue ctx exec callee args line) (callValue { ctx with limit } exec callee args line) := by
  intro s
  simp only [callValue, invoke_limit]
  cases callable? s.heap callee with
  | none => exact .inr rfl
  | some callable =>
    by_cases wrong : args.length ≠ callable.arity
    · simp only [if_pos wrong]
      exact .inr trivial
    · by_cases deep : limitReached ctx s.depth = true
      · simp only [if_neg wrong, if_pos deep]
        exact .inl ⟨_, s, rfl, rfl⟩
      · have free : ¬ limitReached { ctx with limit } s.depth = true := fun reached => deep (roomier.reached reached)
        simp only [if_neg wrong, if_neg deep, if_neg free]
        exact .inr trivial

private theorem evalStep_cut_by_limit (eval : Expr → Eval Value) (exec : Stmt → Eval Unit) (e : Expr) :
    CutBy Stop.Overflow (evalStep ctx eval exec e) (evalStep { ctx with limit } eval exec e) := by
  cases e with
  | call callee arguments line =>
    exact (CutBy.refl _).bind fun f => (CutBy.refl _).bind fun args => callValue_cut_by_limit roomier exec f args line
  | _ => exact .refl _

/-- A roomier limit changes nothing but where calls overflow. -/
theorem evaluation_cut_by_limit (n : Nat) :
    (∀ e, CutBy Stop.Overflow (evalExpr ctx n e) (evalExpr { ctx with limit } n e)) ∧
      ∀ stmt, CutBy Stop.Overflow (execStmt ctx n stmt) (execStmt { ctx with limit } n stmt) := by
  induction n with
  | zero => exact ⟨fun _ => .refl _, fun _ => .refl _⟩
  | succ n ih =>
    constructor
    · intro e
      exact (evalStep_cut ih.1 ih.2 ctx e).trans (evalStep_cut_by_limit roomier _ _ e)
    · -- statements do not read the limit themselves
      intro stmt
      have same : ∀ eval exec, execStep { ctx with limit } eval exec stmt = execStep ctx eval exec stmt :=
        fun _ _ => rfl
      rw [execStmt, execStmt, same]
      exact execStep_cut ih.1 ih.2 ctx stmt

end
end Lox.Evaluation
