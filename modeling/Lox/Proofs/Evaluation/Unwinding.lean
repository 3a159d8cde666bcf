import Lox.Proofs.Evaluation.Hosting

/-! Returns that unwind. On this host a return is a signal that ends everything up to the call of the
function around it, as an exception does: there is no register for it, and whatever follows simply follows.
Evaluation that leaves returns pending comes to the same. -/
namespace Lox.Evaluation

/-- The state without a pending return. -/
structure Machine where
  heap : Heap
  scope : ScopeId
  depth : Nat
  output : Array Text
  readings : Nat

def State.machine (s : State) : Machine := ⟨s.heap, s.scope, s.depth, s.output, s.readings⟩

/-- The state in which no return is pending. -/
def Machine.idle (m : Machine) : State := ⟨m.heap, m.scope, m.depth, none, m.output, m.readings⟩

/-- What ends an evaluation early: a return, up to the call of its function, or a stop. -/
inductive Signal
  | returned (value : Value)
  | stop (reason : Stop)

abbrev Unwinding := EStateM Signal Machine

instance : Host Unwinding where
  step x m :=
    match x m.idle with
    | .ok a s => .ok a s.machine
    | .error reason s => .error (.stop reason) s.machine
  -- The scope is left by a return, too.
  within scope x m :=
    match x { m with scope } with
    | .ok _ n => .ok () { n with scope := m.scope }
    | .error (.returned value) n => .error (.returned value) { n with scope := m.scope }
    | .error (.stop reason) n => .error (.stop reason) n
  deeper x m :=
    match x { m with depth := m.depth + 1 } with
    | .ok value n => .ok value { n with depth := n.depth - 1 }
    | .error signal n => .error signal n
  ret value := throw (.returned value)
  andThen x y := do
    x
    y
  body x m :=
    match x m with
    | .ok _ n => .ok .nil n
    | .error (.returned value) n => .ok value n
    | .error (.stop reason) n => .error (.stop reason) n
  start _ x := x

/-! Both ways of returning correspond. -/

/-- Results of computations that yield values. -/
inductive SameValue : EStateM.Result Stop State α → EStateM.Result Signal Machine α → Prop where
  | ok {a : α} {t : State} (idle : t.pending = none) : SameValue (.ok a t) (.ok a t.machine)
  | stop : SameValue (.error reason t) (.error (.stop reason) t.machine)

/-- Results of computations that may return: a pending value on one side, a signal on the other. -/
inductive SameEffect (returns : Bool) :
    EStateM.Result Stop State Unit → EStateM.Result Signal Machine Unit → Prop where
  | ok {t : State} (idle : t.pending = none) : SameEffect returns (.ok () t) (.ok () t.machine)
  | returned {t : State} (allowed : returns = true) (pending : t.pending = some value) :
      SameEffect returns (.ok () t) (.error (.returned value) t.machine)
  | stop : SameEffect returns (.error reason t) (.error (.stop reason) t.machine)

/-- Computations that yield the same values, wherever no return is pending. -/
def SameValues (x : Eval α) (x' : Unwinding α) : Prop :=
  ∀ s : State, s.pending = none → SameValue (x s) (x' s.machine)

/-- Computations that have the same effects, wherever no return is pending. -/
def SameEffects (returns : Bool) (x : Eval Unit) (x' : Unwinding Unit) : Prop :=
  ∀ s : State, s.pending = none → SameEffect returns (x s) (x' s.machine)

private theorem State.idle_machine {s : State} (idle : s.pending = none) : s.machine.idle = s := by
  cases s
  cases idle
  rfl

namespace SameValues

private theorem pure (a : α) : SameValues (pure a) (pure a) := fun _ idle => .ok idle

private theorem bind {x : Eval α} {x' : Unwinding α} {f : α → Eval β} {f' : α → Unwinding β}
    (first : SameValues x x') (next : ∀ a, SameValues (f a) (f' a)) : SameValues (x >>= f) (x' >>= f') := by
  intro s idle
  have here := first s idle
  simp only [Bind.bind, EStateM.bind]
  generalize x s = r at here ⊢
  generalize x' s.machine = r' at here ⊢
  cases here with
  | ok idle => exact next _ _ idle
  | stop => exact .stop

private theorem step {x : Eval α} (plain : Plain x) : SameValues (Host.step x) (Host.step x) := by
  intro s idle
  have kept := plain s
  simp only [Host.step, State.idle_machine idle]
  cases ran : x s with
  | ok a t =>
    rw [ran] at kept
    exact .ok ((congrArg Registers.pending kept).trans idle)
  | error reason t => exact .stop

private theorem deeper {x : Eval Value} {x' : Unwinding Value} (same : SameValues x x') :
    SameValues (Host.deeper x) (Host.deeper x') := by
  intro s idle
  have here := same { s with depth := s.depth + 1 } idle
  simp only [Host.deeper, nested]
  generalize x { s with depth := s.depth + 1 } = r at here ⊢
  change SameValue r (x' { s.machine with depth := s.machine.depth + 1 }) at here
  generalize x' { s.machine with depth := s.machine.depth + 1 } = r' at here ⊢
  cases here with
  | @ok value t idle => exact .ok (t := { t with depth := t.depth - 1 }) idle
  | stop => exact .stop

/-- The checks before a call stop it or change nothing. -/
theorem call {f : Callable → Eval Value} {f' : Callable → Unwinding Value}
    (same : ∀ callable, SameValues (f callable) (f' callable)) :
    SameValues (Host.step (checkCall ctx callee count line) >>= fun callable => Host.deeper (f callable))
      (Host.step (checkCall ctx callee count line) >>= fun callable => Host.deeper (f' callable)) :=
  (step checkCall_plain).bind fun callable => deeper (same callable)

private theorem body {x : Eval Unit} {x' : Unwinding Unit} (same : SameEffects true x x') :
    SameValues (Host.body x) (Host.body x') := by
  intro s idle
  have here := same s idle
  simp only [Host.body, Bind.bind, EStateM.bind]
  generalize x s = r at here ⊢
  generalize x' s.machine = r' at here ⊢
  cases here with
  | @ok t idle =>
    simp only [takePending, idle]
    exact .ok (t := { t with pending := none }) rfl
  | @returned _ t _ pending =>
    simp only [takePending, pending]
    exact .ok (t := { t with pending := none }) rfl
  | stop => exact .stop

end SameValues

namespace SameEffects

variable {x y : Eval Unit} {x' y' : Unwinding Unit}

private theorem ofValues (same : SameValues x x') : SameEffects returns x x' := by
  intro s idle
  have here := same s idle
  generalize x s = r at here ⊢
  generalize x' s.machine = r' at here ⊢
  cases here with
  | ok idle => exact .ok idle
  | stop => exact .stop

private theorem values (same : SameEffects false x x') : SameValues x x' := by
  intro s idle
  have here := same s idle
  generalize x s = r at here ⊢
  generalize x' s.machine = r' at here ⊢
  cases here with
  | ok idle => exact .ok idle
  | returned allowed => cases allowed
  | stop => exact .stop

private theorem after {x : Eval α} {x' : Unwinding α} {f : α → Eval Unit} {f' : α → Unwinding Unit}
    (first : SameValues x x') (next : ∀ a, SameEffects returns (f a) (f' a)) :
    SameEffects returns (x >>= f) (x' >>= f') := by
  intro s idle
  have here := first s idle
  simp only [Bind.bind, EStateM.bind]
  generalize x s = r at here ⊢
  generalize x' s.machine = r' at here ⊢
  cases here with
  | ok idle => exact next _ _ idle
  | stop => exact .stop

private theorem within (same : SameEffects returns x x') :
    SameEffects returns (Host.within scope x) (Host.within scope x') := by
  intro s idle
  have here : SameEffect returns (x { s with scope }) (x' { s.machine with scope }) := same { s with scope } idle
  simp only [Host.within, inScope]
  generalize x { s with scope } = r at here ⊢
  generalize x' { s.machine with scope } = r' at here ⊢
  cases here with
  | @ok t idle => exact .ok (t := { t with scope := s.scope }) idle
  | @returned _ t allowed pending => exact .returned (t := { t with scope := s.scope }) allowed pending
  | stop => exact .stop

/-- Where one side looks for a pending return, the other has been left by the signal. -/
theorem andThen (first : SameEffects returns x x') (second : SameEffects returns y y') :
    SameEffects returns (Host.andThen x y) (Host.andThen x' y') := by
  intro s idle
  have here := first s idle
  simp only [Host.andThen, Bind.bind, EStateM.bind]
  generalize x s = r at here ⊢
  generalize x' s.machine = r' at here ⊢
  cases here with
  | @ok t idle =>
    simp only [idle, Option.isSome_none, Bool.false_eq_true, if_false]
    exact second t idle
  | @returned _ t allowed pending =>
    simp only [pending, Option.isSome_some, if_true]
    exact .returned allowed pending
  | stop => exact .stop

private theorem ret (value : Value) : SameEffects true (Host.ret value) (Host.ret value) :=
  fun s _ => .returned (t := { s with pending := some value }) rfl rfl

end SameEffects

/-- To leave a return pending corresponds to unwinding. -/
def unwinding (ctx : Context) : Correspondence Eval Unwinding ctx where
  Values := SameValues
  Effects := SameEffects
  pure := .pure
  bind := .bind
  step := .step
  call := .call
  body := .body
  declare := .step declareClass_plain
  start := id
  effects := .ofValues
  values := SameEffects.values
  after := .after
  within := .within
  andThen := .andThen
  ret := .ret
  startEffects := id

end Lox.Evaluation
