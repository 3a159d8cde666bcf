import Lox.Proofs.Evaluation.Hosting

/-! The moments of an evaluation. On this host evaluation also writes down each state in which it does
something. Every expression and statement that comes to its end leaves the scope and the depth of calls as
it found them, and while a return is pending nothing is evaluated, run or printed. -/
namespace Lox.Evaluation

/-- What evaluation is about to do. -/
inductive Event
  | start (task : Task)
  | step
  | enter
  | leave
  | descend
  | ascend
  | ret
  /-- Passes over what follows a return. -/
  | pass
  /-- Takes the value of a body. -/
  | take

/-- What is not done while a return is pending. -/
def Event.works : Event → Bool
  | start _ | step | enter | descend | ascend | ret => true
  | leave | pass | take => false

structure Moment where
  event : Event
  state : State

/-- A computation with its moments. -/
structure Traced (α : Type) where
  run : Eval α
  trace : State → List Moment

/-- The moments that follow, if there is no stop. -/
def onward (result : EStateM.Result Stop State α) (next : α → State → List Moment) : List Moment :=
  match result with
  | .ok a s => next a s
  | .error _ _ => []

instance : Monad Traced where
  pure a := ⟨pure a, fun _ => []⟩
  bind x f := {
    run := x.run >>= fun a => (f a).run
    trace s := x.trace s ++ onward (x.run s) fun a t => (f a).trace t }

instance : Host Traced where
  step x := ⟨x, fun s => [⟨.step, s⟩]⟩
  within scope x := {
    run := inScope scope x.run
    trace s := ⟨.enter, s⟩ :: (x.trace { s with scope } ++
      onward (x.run { s with scope }) fun _ t => [⟨.leave, t⟩]) }
  deeper x := {
    run := nested x.run
    trace s :=
      let inner := { s with depth := s.depth + 1 }
      ⟨.descend, inner⟩ :: (x.trace inner ++ onward (x.run inner) fun _ t => [⟨.ascend, t⟩]) }
  ret value := ⟨setPending value, fun s => [⟨.ret, s⟩]⟩
  andThen x y := {
    run := Host.andThen x.run y.run
    trace s := x.trace s ++ onward (x.run s) fun _ t => if t.pending.isSome then [⟨.pass, t⟩] else y.trace t }
  body x := {
    run := Host.body x.run
    trace s := x.trace s ++ onward (x.run s) fun _ t => [⟨.take, t⟩] }
  start task x := ⟨x.run, fun s => ⟨.start task, s⟩ :: x.trace s⟩

theorem mem_onward {next : α → State → List Moment} (member : moment ∈ onward result next) :
    ∃ a t, result = .ok a t ∧ moment ∈ next a t := by
  cases result with
  | ok a t => exact ⟨a, t, rfl, member⟩
  | error => cases member

/-! Discipline. -/

/-- The depth is within the limit. -/
def Within (limit : Option Nat) (depth : Nat) : Prop := ∀ n, limit = some n → depth ≤ n

/-- Nothing is done while a return is pending. -/
def Moment.Sound (moment : Moment) : Prop := moment.event.works = true → moment.state.pending = none

/-- A computation that keeps to the rules. It leaves no return pending unless it may. -/
structure Disciplined (returns : Bool) (x : Traced α) (y : Eval α) : Prop where
  run : x.run = y
  settled : x.run s = .ok a t → t.scope = s.scope ∧ t.depth = s.depth
  idle : returns = false → x.run s = .ok a t → s.pending = none → t.pending = none
  sound (s : State) : s.pending = none → ∀ moment ∈ x.trace s, moment.Sound

theorem eq_ok_of_run' {x : Eval α} (ran : x.run' s = some a) : ∃ t, x s = .ok a t := by
  delta EStateM.run' EStateM.run at ran
  split at ran
  · cases ran
    exact ⟨_, ‹_›⟩
  · cases ran

theorem bind_eq_ok {ε σ α β : Type} {x : EStateM ε σ α} {f : α → EStateM ε σ β} {s u : σ} {b : β}
    (ran : (x >>= f) s = .ok b u) :
    ∃ a t, x s = .ok a t ∧ f a t = .ok b u := by
  simp only [Bind.bind, EStateM.bind] at ran
  cases first : x s with
  | ok a t =>
    rw [first] at ran
    exact ⟨a, t, rfl, ran⟩
  | error stop t =>
    rw [first] at ran
    cases ran

theorem readVariable_eq_ok (ran : readVariable ctx node name s = .ok value t) : t = s := by
  unfold readVariable at ran
  split at ran
  · unfold readAt at ran
    split at ran
    · cases ran
      rfl
    · cases ran
  · split at ran
    · cases ran
      rfl
    · cases ran

theorem superclassOf_eq_ok (ran : superclassOf ctx ref s = .ok parent t) : t = s := by
  obtain ⟨value, u, read, checked⟩ := bind_eq_ok ran
  obtain rfl := readVariable_eq_ok read
  cases value <;> cases checked
  rfl

/-- A call goes on where the depth is below the limit. -/
theorem checkCall_eq_ok (ran : checkCall ctx callee count line s = .ok callable t) :
    t = s ∧ Within ctx.limit (s.depth + 1) := by
  unfold checkCall at ran
  simp only at ran
  split at ran
  · cases ran
  · split at ran
    · cases ran
    · split at ran
      · cases ran
      · rename_i below
        cases ran
        refine ⟨rfl, fun n known => ?_⟩
        have under : s.depth < n := by simpa [limitReached, known] using below
        exact under

theorem nested_eq_ok (ran : nested x s = .ok value u) :
    ∃ t, x { s with depth := s.depth + 1 } = .ok value t ∧ u = { t with depth := t.depth - 1 } := by
  unfold nested at ran
  split at ran
  · cases ran
    exact ⟨_, by assumption, rfl⟩
  · cases ran

theorem inScope_eq_ok (ran : inScope scope x s = .ok () u) :
    ∃ t, x { s with scope } = .ok () t ∧ u = { t with scope := s.scope } := by
  unfold inScope at ran
  simp only at ran
  split at ran
  · cases ran
    exact ⟨_, by assumption, rfl⟩
  · cases ran

/-- A return is pending after the first part, or else the second one is done. -/
theorem andThen_eq_ok {x y : Eval Unit} (ran : Host.andThen x y s = .ok () u) :
    ∃ t, x s = .ok () t ∧ (t.pending.isSome = true ∧ u = t ∨ t.pending = none ∧ y t = .ok () u) := by
  obtain ⟨_, t, first, next⟩ := bind_eq_ok ran
  refine ⟨t, first, ?_⟩
  split at next
  · rename_i pending
    cases next
    exact .inl ⟨pending, rfl⟩
  · rename_i free
    exact .inr ⟨by simpa using free, next⟩

theorem body_eq_ok {x : Eval Unit} (ran : Host.body x s = .ok value u) :
    ∃ t, x s = .ok () t ∧ u = { t with pending := none } := by
  obtain ⟨_, t, first, next⟩ := bind_eq_ok ran
  cases next
  exact ⟨t, first, rfl⟩

namespace Disciplined

private theorem pure (a : α) : Disciplined false (pure a) (pure a) := by
  refine ⟨rfl, ?_, ?_, fun _ _ => nofun⟩
  · rintro s _ _ ⟨⟩
    exact ⟨rfl, rfl⟩
  · rintro s _ _ _ ⟨⟩ idle
    exact idle

private theorem weaken {x : Traced α} (disciplined : Disciplined false x y) : Disciplined returns x y :=
  { disciplined with idle := fun _ => disciplined.idle rfl }

private theorem bind {x : Traced α} {y : Eval α} {f : α → Traced β} {g : α → Eval β} (first : Disciplined false x y)
    (next : ∀ a, Disciplined returns (f a) (g a)) : Disciplined returns (x >>= f) (y >>= g) := by
  constructor
  · have same : (fun a => (f a).run) = g := funext fun a => (next a).run
    rw [← first.run, ← same]
    rfl
  · intro s b u ran
    obtain ⟨a, t, ranFirst, ranNext⟩ := bind_eq_ok ran
    have early := first.settled ranFirst
    have late := (next a).settled ranNext
    exact ⟨late.1.trans early.1, late.2.trans early.2⟩
  · intro s b u stays ran idle
    obtain ⟨a, t, ranFirst, ranNext⟩ := bind_eq_ok ran
    exact (next a).idle stays ranNext (first.idle rfl ranFirst idle)
  · intro s idle moment member
    rcases List.mem_append.1 member with early | late
    · exact first.sound s idle moment early
    · obtain ⟨a, t, ran, member⟩ := mem_onward late
      exact (next a).sound t (first.idle rfl ran idle) moment member

private theorem step {x : Eval α} (plain : Plain x) : Disciplined false (Host.step x) (Host.step x) := by
  have kept : ∀ {s a t}, x s = .ok a t → t.registers = s.registers := by
    intro s a t ran
    have same := plain s
    rwa [ran] at same
  constructor
  · rfl
  · intro s a t ran
    exact ⟨congrArg Registers.scope (kept ran), congrArg Registers.depth (kept ran)⟩
  · intro s a t _ ran idle
    exact (congrArg Registers.pending (kept ran)).trans idle
  · intro s idle moment member
    rw [List.mem_singleton.1 member]
    exact fun _ => idle

private theorem call {f : Callable → Traced Value} {g : Callable → Eval Value}
    (same : ∀ callable, Disciplined false (f callable) (g callable)) :
    Disciplined false
      (Host.step (checkCall ctx callee count line) >>= fun callable => Host.deeper (f callable))
      (Host.step (checkCall ctx callee count line) >>= fun callable => Host.deeper (g callable)) := by
  constructor
  · have runs : (fun callable => (Host.deeper (f callable)).run) = fun callable => Host.deeper (g callable) :=
      funext fun callable => congrArg nested (same callable).run
    rw [← runs]
    rfl
  · intro s value u ran
    obtain ⟨callable, t, checked, called⟩ := bind_eq_ok ran
    obtain ⟨inner, ranInner, rfl⟩ := nested_eq_ok called
    obtain ⟨rfl, -⟩ := checkCall_eq_ok checked
    obtain ⟨scope, depth⟩ := (same callable).settled ranInner
    refine ⟨scope, ?_⟩
    simp only [depth, Nat.add_sub_cancel]
  · intro s value u _ ran idle
    obtain ⟨callable, t, checked, called⟩ := bind_eq_ok ran
    obtain ⟨inner, ranInner, rfl⟩ := nested_eq_ok called
    obtain ⟨rfl, -⟩ := checkCall_eq_ok checked
    have free := (same callable).idle rfl ranInner idle
    exact free
  · intro s idle moment member
    rcases List.mem_append.1 member with early | late
    · exact (step checkCall_plain).sound s idle moment early
    · obtain ⟨callable, t, checked, called⟩ := mem_onward late
      obtain ⟨rfl, -⟩ := checkCall_eq_ok checked
      rcases List.mem_cons.1 called with rfl | called
      · exact fun _ => idle
      rcases List.mem_append.1 called with inside | back
      · exact (same callable).sound { t with depth := t.depth + 1 } idle moment inside
      · obtain ⟨value, inner, ran, last⟩ := mem_onward back
        rw [List.mem_singleton.1 last]
        exact fun _ => (same callable).idle rfl ran idle

private theorem body {x : Traced Unit} {y : Eval Unit} (same : Disciplined true x y) :
    Disciplined false (Host.body x) (Host.body y) := by
  constructor
  · rw [← same.run]
    rfl
  · intro s value u ran
    obtain ⟨t, ranBody, rfl⟩ := body_eq_ok ran
    have kept := same.settled ranBody
    exact kept
  · intro s value u _ ran _
    obtain ⟨t, _, rfl⟩ := body_eq_ok ran
    rfl
  · intro s idle moment member
    rcases List.mem_append.1 member with inside | back
    · exact same.sound s idle moment inside
    · obtain ⟨_, t, ran, member⟩ := mem_onward back
      rw [List.mem_singleton.1 member]
      exact nofun

private theorem within {x : Traced Unit} {y : Eval Unit} (same : Disciplined returns x y) :
    Disciplined returns (Host.within scope x) (Host.within scope y) := by
  constructor
  · rw [← same.run]
    rfl
  · intro s _ u ran
    obtain ⟨t, ranInner, rfl⟩ := inScope_eq_ok ran
    exact ⟨rfl, (same.settled ranInner).2⟩
  · intro s _ u stays ran idle
    obtain ⟨t, ranInner, rfl⟩ := inScope_eq_ok ran
    have free := same.idle stays ranInner idle
    exact free
  · intro s idle moment member
    rcases List.mem_cons.1 member with rfl | member
    · exact fun _ => idle
    rcases List.mem_append.1 member with inside | back
    · exact same.sound { s with scope } idle moment inside
    · obtain ⟨_, t, ran, member⟩ := mem_onward back
      rw [List.mem_singleton.1 member]
      exact nofun

private theorem andThen {x x' : Traced Unit} {y y' : Eval Unit} (first : Disciplined returns x y)
    (second : Disciplined returns x' y') :
    Disciplined returns (Host.andThen x x') (Host.andThen y y') := by
  constructor
  · rw [← first.run, ← second.run]
    rfl
  · intro s _ u ran
    obtain ⟨t, ranFirst, ⟨_, rfl⟩ | ⟨_, ranSecond⟩⟩ := andThen_eq_ok ran
    · exact first.settled ranFirst
    · have early := first.settled ranFirst
      have late := second.settled ranSecond
      exact ⟨late.1.trans early.1, late.2.trans early.2⟩
  · intro s _ u stays ran idle
    obtain ⟨t, ranFirst, ⟨_, rfl⟩ | ⟨free, ranSecond⟩⟩ := andThen_eq_ok ran
    · exact first.idle stays ranFirst idle
    · exact second.idle stays ranSecond free
  · intro s idle moment member
    rcases List.mem_append.1 member with early | late
    · exact first.sound s idle moment early
    · obtain ⟨_, t, ran, member⟩ := mem_onward late
      by_cases pending : t.pending.isSome = true
      · rw [if_pos pending] at member
        rw [List.mem_singleton.1 member]
        exact nofun
      · rw [if_neg pending] at member
        exact second.sound t (by simpa using pending) moment member

private theorem ret (value : Value) : Disciplined true (Host.ret value) (Host.ret value) := by
  refine ⟨rfl, ?_, nofun, ?_⟩
  · rintro s _ _ ⟨⟩
    exact ⟨rfl, rfl⟩
  · intro s idle moment member
    rw [List.mem_singleton.1 member]
    exact fun _ => idle

private theorem start {x : Traced α} (same : Disciplined returns x y) :
    Disciplined returns (Host.start task x) (Host.start task y) := by
  refine ⟨same.run, same.settled, same.idle, ?_⟩
  intro s idle moment member
  rcases List.mem_cons.1 member with rfl | member
  · exact fun _ => idle
  · exact same.sound s idle moment member

end Disciplined

/-- Evaluation with its moments is evaluation, and disciplined. -/
def discipline (ctx : Context) : Correspondence Traced Eval ctx where
  Values := Disciplined false
  Effects := Disciplined
  pure := .pure
  bind := .bind
  step := .step
  call := .call
  body := .body
  declare := .step declareClass_plain
  start := .start
  effects := .weaken
  values := id
  after := .bind
  within := .within
  andThen := .andThen
  ret := .ret
  startEffects := .start

theorem run_evalExpr (ctx : Context) (n : Nat) (e : Expr) :
    (Hosted.evalExpr ctx n e : Traced Value).run = evalExpr ctx n e := by
  rw [(((discipline ctx).evaluation n).1 e).run, (evalExpr_execStmt_eq ctx n).1]

theorem run_execStmt (ctx : Context) (n : Nat) (stmt : Stmt) :
    (Hosted.execStmt ctx n stmt : Traced Unit).run = execStmt ctx n stmt := by
  rw [(((discipline ctx).evaluation n).2 true stmt fun _ => rfl).run, (evalExpr_execStmt_eq ctx n).2]

end Lox.Evaluation
