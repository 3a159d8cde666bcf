import Lox.Proofs.Evaluation.ByName
import Lox.Proofs.Evaluation.Moments

/-! Registers that are put back by hand. On this host the current scope, the depth of calls and the two parts of a
return are registers: what sets one of them has to put it back itself, and a stop passes over all that is left to be put
back. The declaration of a class does so too: it binds the name before there is a class, and with a superclass it goes
into a scope for `super` and out of it again.

Whatever comes to its end here has put the scope and the depth back, and an expression leaves no return; the depth never
falls below zero nor passes its limit. As long as there is the scope in which evaluation is, this host does what
evaluation does. -/
namespace Lox.Evaluation

namespace Manual

/-- The registers. Nothing in them says that the depth is not below zero, or that a value is there only while a return
is under way. -/
structure Registers where
  scope : ScopeId
  depth : Int
  returning : Bool
  value : Value

/-- The registers at top level, between runs. -/
def Registers.idle : Registers := ⟨Heap.globals, 0, false, .nil⟩

/-- The state of the host. It remembers all registers there have been, the latest first. -/
structure State where
  heap : Heap
  registers : Registers
  output : Array Text
  readings : Nat
  past : List Registers

/-- The state as a step sees it. -/
def State.view (m : State) : Evaluation.State where
  heap := m.heap
  scope := m.registers.scope
  depth := m.registers.depth.toNat
  pending := if m.registers.returning then some m.registers.value else none
  output := m.output
  readings := m.readings

/-- The state after a step, which has no way to the registers. -/
def State.update (m : State) (s : Evaluation.State) : State :=
  { m with heap := s.heap, output := s.output, readings := s.readings }

def State.set (m : State) (change : Registers → Registers) : State :=
  { m with registers := change m.registers, past := change m.registers :: m.past }

end Manual

abbrev Manual := EStateM Stop Manual.State

namespace Manual

def step (x : Eval α) : Manual α := fun m =>
  match x m.view with
  | .ok a s => .ok a (m.update s)
  | .error stop s => .error stop (m.update s)

def read (part : Registers → α) : Manual α := fun m => .ok (part m.registers) m

def set (change : Registers → Registers) : Manual Unit := fun m => .ok () (m.set change)

def setScope (scope : ScopeId) : Manual Unit := set ({ · with scope })

/-- Runs statements in another scope. -/
def within (scope : ScopeId) (x : Manual Unit) : Manual Unit := do
  let outer ← read (·.scope)
  setScope scope
  x
  setScope outer

def deeper (x : Manual Value) : Manual Value := do
  set fun r => { r with depth := r.depth + 1 }
  let value ← x
  set fun r => { r with depth := r.depth - 1 }
  pure value

def ret (value : Value) : Manual Unit := do
  set ({ · with value })
  set ({ · with returning := true })

def andThen (x y : Manual Unit) : Manual Unit := do
  x
  if ← read (·.returning) then pure () else y

/-- Takes the value of a return, if there is one, and clears both of its registers. -/
def takeReturn : Manual Value := do
  let value ← read (·.value)
  set ({ · with returning := false })
  set ({ · with value := .nil })
  pure value

/-- The scope around the current one. -/
def enclosing : Eval ScopeId := fun s =>
  match (s.heap.scope s.scope).parent with
  | some outer => .ok outer s
  | none => .error (.breach .chainTooShort) s

/-- Makes a class in the current scope, where its methods live. -/
def makeClass (name : Text) (methods : List FunctionDecl) (superclass : Option ClassId) : Manual Value := do
  let home ← read (·.scope)
  step (newClass ⟨name, superclass, methodTable home methods⟩)

/-- Makes a class below another one: goes into a scope that binds `super`, and out of it again. -/
def makeSubclass (name : Text) (methods : List FunctionDecl) (parent : ClassId) : Manual Value := do
  let outer ← read (·.scope)
  let home ← step (openScope outer [])
  setScope home
  step (define Names.super (.cls parent))
  let c ← makeClass name methods (some parent)
  let left ← step enclosing
  setScope left
  pure c

/-- Declares a class. Its name is bound before it is made, and assigned afterwards. -/
def declareClass (ctx : Context) (name : Ident) (superclass : Option Reference) (methods : List FunctionDecl) :
    Manual Unit := do
  match superclass with
  | none =>
    step (define name.text .nil)
    let c ← makeClass name.text methods none
    step (ByName.assignVariable name c)
  | some ref =>
    let parent ← step (superclassOf ctx ref)
    step (define name.text .nil)
    let c ← makeSubclass name.text methods parent
    step (ByName.assignVariable name c)

end Manual

instance : Host Manual where
  step := Manual.step
  within := Manual.within
  deeper := Manual.deeper
  ret := Manual.ret
  andThen := Manual.andThen
  body x := do
    x
    Manual.takeReturn
  declare := Manual.declareClass
  start _ x := x

namespace Manual

/-! Discipline. -/

/-- No return is under way, and none has left its value behind. -/
def Registers.Quiet (r : Registers) : Prop := r.returning = false ∧ r.value = .nil

/-- The depth is within its bounds. -/
def InBounds (limit : Option Nat) (depth : Int) : Prop := 0 ≤ depth ∧ ∀ n : Nat, limit = some n → depth ≤ n

/-- A computation that keeps to the rules. It leaves no return unless it may. -/
structure Keeps (ctx : Context) (returns : Bool) (x : Manual α) : Prop where
  settled : x m = .ok a n → n.registers.scope = m.registers.scope ∧ n.registers.depth = m.registers.depth
  quiet : returns = false → x m = .ok a n → m.registers.Quiet → n.registers.Quiet
  bounded (m : State) : InBounds ctx.limit m.registers.depth →
    ∀ r ∈ (last (x m)).past, r ∈ m.past ∨ InBounds ctx.limit r.depth

variable {ctx : Context} {returns : Bool}

namespace Keeps

private theorem pure (a : α) : Keeps ctx false (pure a) := by
  refine ⟨?_, ?_, fun _ _ _ => .inl⟩
  · rintro m _ _ ⟨⟩
    exact ⟨rfl, rfl⟩
  · rintro m _ _ _ ⟨⟩ quiet
    exact quiet

private theorem weaken {x : Manual α} (keeps : Keeps ctx false x) : Keeps ctx returns x :=
  { keeps with quiet := fun _ => keeps.quiet rfl }

private theorem bind {x : Manual α} {f : α → Manual β} (first : Keeps ctx returns x)
    (next : ∀ a, Keeps ctx returns (f a)) :
    Keeps ctx returns (x >>= f) := by
  constructor
  · intro m b u ran
    obtain ⟨a, n, ranFirst, ranNext⟩ := bind_eq_ok ran
    have early := first.settled ranFirst
    have late := (next a).settled ranNext
    exact ⟨late.1.trans early.1, late.2.trans early.2⟩
  · intro m b u stays ran quiet
    obtain ⟨a, n, ranFirst, ranNext⟩ := bind_eq_ok ran
    exact (next a).quiet stays ranNext (first.quiet stays ranFirst quiet)
  · intro m bounded r member
    have before := first.bounded m bounded
    simp only [Bind.bind, EStateM.bind] at member
    cases ran : x m with
    | error stop n =>
      rw [ran] at before member
      exact before r member
    | ok a n =>
      rw [ran] at before member
      have bounded : InBounds ctx.limit n.registers.depth := (first.settled ran).2 ▸ bounded
      exact ((next a).bounded n bounded r member).elim (before r) .inr

/-- A step has no way to the registers. -/
theorem step (x : Eval α) : Keeps ctx false (Manual.step x) := by
  constructor
  · intro m a n ran
    unfold Manual.step at ran
    split at ran <;> cases ran
    exact ⟨rfl, rfl⟩
  · intro m a n _ ran quiet
    unfold Manual.step at ran
    split at ran <;> cases ran
    exact quiet
  · intro m _ r member
    unfold Manual.step at member
    split at member <;> exact .inl member

/-- Registers that are set within bounds. -/
theorem mem_set {m : State} (bounded : InBounds limit (change m.registers).depth) (member : r ∈ (m.set change).past) :
    r ∈ m.past ∨ InBounds limit r.depth := by
  rcases List.mem_cons.1 member with rfl | old
  · exact .inr bounded
  · exact .inl old

/-- A part is run with a register changed before and put back behind it. -/
theorem mem_between {x : Manual α} {m : State} (keeps : Keeps ctx returns x) (before behind : Registers → Registers)
    (into : InBounds ctx.limit (before m.registers).depth)
    (back : ∀ r : Registers, r.depth = (before m.registers).depth → InBounds ctx.limit (behind r).depth)
    (member : r ∈ (last ((x >>= fun a => set behind >>= fun _ => Pure.pure a) (m.set before))).past) :
    r ∈ m.past ∨ InBounds ctx.limit r.depth := by
  have inside := keeps.bounded (m.set before) into
  simp only [set, Bind.bind, EStateM.bind] at member
  cases ran : x (m.set before) with
  | error stop n =>
    rw [ran] at inside member
    exact (inside r member).elim (mem_set into) .inr
  | ok a n =>
    rw [ran] at inside member
    have member : r ∈ (n.set behind).past := member
    rcases mem_set (back n.registers (keeps.settled ran).2) member with early | late
    · exact (inside r early).elim (mem_set into) .inr
    · exact .inr late

private theorem within {x : Manual Unit} (keeps : Keeps ctx returns x) (scope : ScopeId) :
    Keeps ctx returns (within scope x) := by
  constructor
  · intro m _ u ran
    obtain ⟨_, _, ⟨⟩, ran⟩ := bind_eq_ok ran
    obtain ⟨_, _, ⟨⟩, ran⟩ := bind_eq_ok ran
    obtain ⟨_, n, inner, ⟨⟩⟩ := bind_eq_ok ran
    exact ⟨rfl, (keeps.settled inner).2⟩
  · intro m _ u stays ran quiet
    obtain ⟨_, _, ⟨⟩, ran⟩ := bind_eq_ok ran
    obtain ⟨_, _, ⟨⟩, ran⟩ := bind_eq_ok ran
    obtain ⟨_, n, inner, ⟨⟩⟩ := bind_eq_ok ran
    have free := keeps.quiet stays inner quiet
    exact free
  · intro m bounded r member
    exact mem_between keeps ({ · with scope }) ({ · with scope := m.registers.scope }) bounded
      (fun r same => same ▸ bounded) member

/-- A call goes on where there is room for it. -/
theorem call {f : Callable → Manual Value} (keeps : ∀ callable, Keeps ctx false (f callable)) :
    Keeps ctx false (Manual.step (checkCall ctx callee count line) >>= fun callable => deeper (f callable)) := by
  have checked : ∀ {m n callable}, Manual.step (checkCall ctx callee count line) m = .ok callable n →
      n = m ∧ Within ctx.limit (m.registers.depth.toNat + 1) := by
    intro m n callable ran
    unfold Manual.step at ran
    split at ran <;> cases ran
    rename_i passed
    obtain ⟨rfl, room⟩ := checkCall_eq_ok passed
    exact ⟨rfl, room⟩
  constructor
  · intro m value u ran
    obtain ⟨callable, n, passed, called⟩ := bind_eq_ok ran
    obtain ⟨rfl, -⟩ := checked passed
    obtain ⟨_, _, ⟨⟩, called⟩ := bind_eq_ok called
    obtain ⟨_, u, inner, ⟨⟩⟩ := bind_eq_ok called
    obtain ⟨scope, depth⟩ := (keeps callable).settled inner
    refine ⟨scope, ?_⟩
    show u.registers.depth - 1 = n.registers.depth
    rw [depth]
    exact Int.add_sub_cancel ..
  · intro m value u _ ran quiet
    obtain ⟨callable, n, passed, called⟩ := bind_eq_ok ran
    obtain ⟨rfl, -⟩ := checked passed
    obtain ⟨_, _, ⟨⟩, called⟩ := bind_eq_ok called
    obtain ⟨_, u, inner, ⟨⟩⟩ := bind_eq_ok called
    have free := (keeps callable).quiet rfl inner quiet
    exact free
  · intro m bounded r member
    simp only [Bind.bind, EStateM.bind] at member
    cases ran : Manual.step (checkCall ctx callee count line) m with
    | error stop n =>
      rw [ran] at member
      have same := (Keeps.step (checkCall ctx callee count line)).bounded m bounded r
      rw [ran] at same
      exact same member
    | ok callable n =>
      rw [ran] at member
      obtain ⟨rfl, room⟩ := checked ran
      have deep : InBounds ctx.limit (n.registers.depth + 1) := by
        refine ⟨Int.add_nonneg bounded.1 (by decide), fun limit known => ?_⟩
        have below := room limit known
        have nonneg := bounded.1
        omega
      refine mem_between (keeps callable) (fun r => { r with depth := r.depth + 1 })
        (fun r => { r with depth := r.depth - 1 }) deep (fun r same => ?_) member
      show InBounds ctx.limit (r.depth - 1)
      rw [same]
      exact (Int.add_sub_cancel ..).symm ▸ bounded

private theorem read (part : Registers → α) : Keeps ctx false (read part) := by
  refine ⟨?_, ?_, fun _ _ _ => .inl⟩
  · rintro m _ _ ⟨⟩
    exact ⟨rfl, rfl⟩
  · rintro m _ _ _ ⟨⟩ quiet
    exact quiet

/-- Only the parts of a return are set. -/
theorem set (scope : ∀ r, (change r).scope = r.scope) (depth : ∀ r, (change r).depth = r.depth) :
    Keeps ctx true (set change) := by
  refine ⟨?_, nofun, fun m bounded r member => mem_set ((depth _).symm ▸ bounded) member⟩
  rintro m _ _ ⟨⟩
  exact ⟨scope _, depth _⟩

private theorem ret (value : Value) : Keeps ctx true (ret value) := by
  unfold Manual.ret
  exact .bind (.set (fun _ => rfl) fun _ => rfl) fun _ => .set (fun _ => rfl) fun _ => rfl

private theorem andThen {x y : Manual Unit} (first : Keeps ctx returns x) (second : Keeps ctx returns y) :
    Keeps ctx returns (andThen x y) := by
  refine first.bind fun _ => (read _).weaken.bind fun returning => ?_
  split
  · exact (pure ()).weaken
  · exact second

/-- Whatever a body leaves, its return is taken. -/
theorem body {x : Manual Unit} (keeps : Keeps ctx true x) : Keeps ctx false (x >>= fun _ => takeReturn) := by
  have taken : Keeps ctx true takeReturn := (read _).weaken.bind fun value =>
    .bind (.set (fun _ => rfl) fun _ => rfl) fun _ => .bind (.set (fun _ => rfl) fun _ => rfl) fun _ =>
      (pure value).weaken
  refine { keeps.bind fun _ => taken with quiet := fun {m value u} _ ran _ => ?_ }
  obtain ⟨_, n, _, ⟨⟩⟩ := bind_eq_ok ran
  exact ⟨rfl, rfl⟩

end Keeps

/-! Declarations of classes. -/

private theorem enclosing_eq {s : Evaluation.State} (parent : (s.heap.scope s.scope).parent = some outer) :
    enclosing s = .ok outer s := by
  unfold enclosing
  rw [parent]

/-- When the class is made, its declaration is back in the scope in which it was. -/
theorem makeSubclass_eq (name : Text) (methods : List FunctionDecl) (parent : ClassId) (m : State) :
    let home := m.heap.scopes.size
    let made := (m.heap.newScope (some m.registers.scope) [(Names.super, .cls parent)]).2.newClass
      ⟨name, some parent, methodTable home methods⟩
    makeSubclass name methods parent m = .ok (.cls made.1)
      { m with heap := made.2, past := m.registers :: { m.registers with scope := home } :: m.past } := by
  intro home made
  let opened := { m with heap := (m.heap.newScope (some m.registers.scope) []).2 }.set ({ · with scope := home })
  have bound : (opened.heap.define home Names.super (.cls parent)).newClass
      ⟨name, some parent, methodTable home methods⟩ = made :=
    congrArg (Heap.newClass · _) (Heap.define_newScope ..)
  have leave : enclosing { opened with heap := made.2 }.view =
      .ok m.registers.scope { opened with heap := made.2 }.view := by
    apply enclosing_eq
    show (Heap.scope (Heap.newScope _ _ _).2 home).parent = _
    rw [Heap.scope_newScope, if_pos rfl]
  have entered : makeSubclass name methods parent m = (step enclosing >>= fun left => setScope left >>= fun _ =>
      pure (.cls made.1)) { opened with heap := made.2 } := by
    rw [← bound]
    rfl
  rw [entered]
  simp only [Bind.bind, EStateM.bind, step, leave]
  rfl

namespace Keeps

private theorem makeClass (name : Text) (methods : List FunctionDecl) (superclass : Option ClassId) :
    Keeps ctx false (makeClass name methods superclass) := (read _).bind fun _ => step _

private theorem makeSubclass (name : Text) (methods : List FunctionDecl) (parent : ClassId) :
    Keeps ctx false (makeSubclass name methods parent) := by
  constructor
  · intro m c n ran
    rw [makeSubclass_eq] at ran
    cases ran
    exact ⟨rfl, rfl⟩
  · intro m c n _ ran quiet
    rw [makeSubclass_eq] at ran
    cases ran
    exact quiet
  · intro m bounded r member
    rw [makeSubclass_eq] at member
    rcases List.mem_cons.1 member with rfl | member
    · exact .inr bounded
    rcases List.mem_cons.1 member with rfl | member
    · exact .inr bounded
    · exact .inl member

private theorem declare (name : Ident) (superclass : Option Reference) (methods : List FunctionDecl) :
    Keeps ctx false (declareClass ctx name superclass methods) := by
  cases superclass with
  | none => exact (step _).bind fun _ => (makeClass ..).bind fun c => step _
  | some ref => exact (step _).bind fun parent => (step _).bind fun _ => (makeSubclass ..).bind fun c => step _

end Keeps

/-! The host does what evaluation does. -/

/-- The same state on both hosts. -/
structure Mirrors (m : State) (s : Evaluation.State) : Prop where
  heap : m.heap = s.heap
  scope : m.registers.scope = s.scope
  depth : m.registers.depth = s.depth
  returning : m.registers.returning = s.pending.isSome
  value : m.registers.value = s.pending.getD .nil
  output : m.output = s.output
  readings : m.readings = s.readings

/-- The same result. -/
inductive Same : EStateM.Result Stop State α → EStateM.Result Stop Evaluation.State α → Prop where
  | ok (mirrors : Mirrors m s) : Same (.ok a m) (.ok a s)
  | error (mirrors : Mirrors m s) : Same (.error stop m) (.error stop s)

/-- There is the current scope, at each of these moments. -/
def Housed (ms : List Moment) : Prop := ∀ moment ∈ ms, moment.state.scope < moment.state.heap.scopes.size

/-- A computation that does what another one does, as long as there is the current scope. -/
def Follows (x : Manual α) (y : Traced α) : Prop :=
  ∀ m s, Mirrors m s → Housed (y.trace s) → Same (x m) (y.run s)

theorem Mirrors.view (mirrors : Mirrors m s) : m.view = s := by
  obtain ⟨heap, scope, depth, pending, output, readings⟩ := s
  simp only [State.view, mirrors.heap, mirrors.scope, mirrors.depth, mirrors.returning, mirrors.value, mirrors.output,
    mirrors.readings, Int.toNat_natCast]
  cases pending <;> rfl

/-- A step that leaves the registers alone leaves the same state on both sides. -/
theorem Mirrors.update {t : Evaluation.State} (mirrors : Mirrors m s) (kept : t.registers = s.registers) :
    Mirrors (m.update t) t := by
  obtain ⟨scope, depth, pending⟩ := Evaluation.Registers.mk.inj kept
  exact ⟨rfl, mirrors.scope.trans scope.symm, mirrors.depth.trans (congrArg Int.ofNat depth.symm),
    mirrors.returning.trans (congrArg Option.isSome pending.symm),
    mirrors.value.trans (congrArg (Option.getD · .nil) pending.symm), rfl, rfl⟩

/-- The same new heap on both sides. -/
theorem Mirrors.heaped (mirrors : Mirrors m s) (h : Heap) (past : List Registers) :
    Mirrors { m with heap := h, past } { s with heap := h } :=
  ⟨rfl, mirrors.scope, mirrors.depth, mirrors.returning, mirrors.value, mirrors.output, mirrors.readings⟩

/-- A name that has just been bound is assigned in the scope that binds it. -/
theorem assignVariable_eq (m : State) (h : Heap) (inside : m.registers.scope < h.scopes.size) (name : Ident)
    (value : Value) (heap : m.heap = h.define m.registers.scope name.text .nil) :
    step (ByName.assignVariable name value) m =
      .ok () { m with heap := h.define m.registers.scope name.text value } := by
  have bound : (m.heap.scope m.registers.scope).bindings.contains name.text = true := by
    rw [heap, Heap.scope_define h inside, if_pos rfl, Table.contains_insert, decide_eq_true rfl, Bool.true_or]
  have assigned := Heap.assign?_of_contains bound value
  simp only [step, ByName.assignVariable, State.view, assigned]
  rw [heap, Heap.define_define]
  rfl

/-- To bind a name, make its class and assign the name comes to binding the name to the class. -/
theorem declare_eq {m : State} {make : Manual Value} (h : Heap) (inside : m.registers.scope < h.scopes.size)
    (name : Ident) (made : make { m with heap := m.heap.define m.registers.scope name.text .nil } =
      .ok value { m with heap := h.define m.registers.scope name.text .nil, past }) :
    (step (define name.text .nil) >>= fun _ => make >>= fun c => step (ByName.assignVariable name c)) m =
      .ok () { m with heap := h.define m.registers.scope name.text value, past } := by
  have start : step (define name.text .nil) m =
      .ok () { m with heap := m.heap.define m.registers.scope name.text .nil } := rfl
  let n : State := { m with heap := h.define m.registers.scope name.text .nil, past }
  have assigned := assignVariable_eq n h inside name value rfl
  simp only [Bind.bind, EStateM.bind, start, made]
  exact assigned

namespace Follows

private theorem pure (a : α) : Follows (pure a) (pure a) := fun _ _ mirrors _ => .ok mirrors

private theorem bind {x : Manual α} {f : α → Manual β} {y : Traced α} {g : α → Traced β} (first : Follows x y)
    (next : ∀ a, Follows (f a) (g a)) : Follows (x >>= f) (y >>= g) := by
  intro m s mirrors housed
  obtain ⟨early, late⟩ := List.forall_mem_append.1 housed
  have here := first m s mirrors early
  show Same ((x >>= f) m) ((y.run >>= fun a => (g a).run) s)
  simp only [Bind.bind, EStateM.bind]
  generalize x m = result at here ⊢
  generalize y.run s = result' at here late ⊢
  cases here with
  | ok mirrors => exact next _ _ _ mirrors late
  | error mirrors => exact .error mirrors

private theorem step {x : Eval α} (plain : Plain x) : Follows (Manual.step x) (Host.step x) := by
  intro m s mirrors _
  have kept := plain s
  show Same (Manual.step x m) (x s)
  unfold Manual.step
  rw [mirrors.view]
  cases ran : x s with
  | ok a t =>
    rw [ran] at kept
    exact .ok (mirrors.update kept)
  | error stop t =>
    rw [ran] at kept
    exact .error (mirrors.update kept)

private theorem within {x : Manual Unit} {y : Traced Unit} (follows : Follows x y) (scope : ScopeId) :
    Follows (within scope x) (Host.within scope y) := by
  intro m s mirrors housed
  have into : Mirrors (m.set ({ · with scope })) { s with scope } := { mirrors with scope := rfl }
  have here := follows _ _ into (List.forall_mem_append.1 (List.forall_mem_cons.1 housed).2).1
  show Same (Manual.within scope x m) (inScope scope y.run s)
  simp only [Manual.within, setScope, set, read, Bind.bind, EStateM.bind, inScope]
  generalize x (m.set ({ · with scope })) = result at here ⊢
  generalize y.run { s with scope } = result' at here ⊢
  cases here with
  | ok inner => exact .ok { inner with scope := mirrors.scope }
  | error inner => exact .error inner

/-- The depth is put back from where a disciplined computation leaves it. -/
theorem deeper {x : Manual Value} {y : Traced Value} (keeps : Keeps ctx false x) (follows : Follows x y) :
    Follows (deeper x) (Host.deeper y) := by
  intro m s mirrors housed
  have into : Mirrors (m.set fun r => { r with depth := r.depth + 1 }) { s with depth := s.depth + 1 } :=
    { mirrors with depth := congrArg (· + 1) mirrors.depth }
  have here := follows _ _ into (List.forall_mem_append.1 (List.forall_mem_cons.1 housed).2).1
  show Same (Manual.deeper x m) (nested y.run s)
  simp only [Manual.deeper, set, Bind.bind, EStateM.bind, nested]
  cases ran : x (m.set fun r => { r with depth := r.depth + 1 }) with
  | error stop n =>
    rw [ran] at here
    generalize y.run { s with depth := s.depth + 1 } = result' at here ⊢
    cases here with
    | error inner => exact .error inner
  | ok value n =>
    have kept := (keeps.settled ran).2
    rw [ran] at here
    generalize y.run { s with depth := s.depth + 1 } = result' at here ⊢
    cases here with
    | @ok _ t _ inner =>
      refine .ok { inner with depth := ?_ }
      have up : n.registers.depth = m.registers.depth + 1 := kept
      have same := inner.depth
      have start := mirrors.depth
      show n.registers.depth - 1 = (t.depth - 1 : Nat)
      omega

private theorem andThen {x x' : Manual Unit} {y y' : Traced Unit} (first : Follows x y) (second : Follows x' y') :
    Follows (andThen x x') (Host.andThen y y') := by
  intro m s mirrors housed
  obtain ⟨early, late⟩ := List.forall_mem_append.1 housed
  have here := first m s mirrors early
  show Same (Manual.andThen x x' m) (Host.andThen y.run y'.run s)
  simp only [Manual.andThen, read, Host.andThen, Bind.bind, EStateM.bind]
  generalize x m = result at here ⊢
  generalize y.run s = result' at here late ⊢
  cases here with
  | error mirrors => exact .error mirrors
  | @ok n t _ mirrors =>
    rw [onward] at late
    simp only [mirrors.returning]
    by_cases pending : t.pending.isSome = true
    · simp only [if_pos pending]
      exact .ok mirrors
    · simp only [if_neg pending] at late ⊢
      exact second n t mirrors late

private theorem ret (value : Value) : Follows (ret value) (Host.ret value) :=
  fun _ _ mirrors _ => .ok { mirrors with returning := rfl, value := rfl }

private theorem body {x : Manual Unit} {y : Traced Unit} (follows : Follows x y) :
    Follows (x >>= fun _ => takeReturn) (Host.body y) := by
  intro m s mirrors housed
  have here := follows m s mirrors (List.forall_mem_append.1 housed).1
  show Same ((x >>= fun _ => takeReturn) m) ((y.run >>= fun _ => takePending) s)
  simp only [Bind.bind, EStateM.bind]
  generalize x m = result at here ⊢
  generalize y.run s = result' at here ⊢
  cases here with
  | error mirrors => exact .error mirrors
  | @ok n t _ mirrors =>
    simp only [takePending, ← mirrors.value]
    exact .ok { mirrors with returning := rfl, value := rfl }

private theorem declarePlain (mirrors : Mirrors m s) (inside : s.scope < s.heap.scopes.size) :
    Same (declareClass ctx name none methods m) (Evaluation.declareClass ctx name none methods s) := by
  rw [← mirrors.scope, ← mirrors.heap] at inside
  let made := m.heap.newClass ⟨name.text, none, methodTable m.registers.scope methods⟩
  have makes : makeClass name.text methods none { m with heap := m.heap.define m.registers.scope name.text .nil } =
      .ok (.cls made.1) { m with heap := made.2.define m.registers.scope name.text .nil } := rfl
  have declared := declare_eq made.2 inside name makes
  have plain : Evaluation.declareClass ctx name none methods s =
      .ok () { s with heap := made.2.define m.registers.scope name.text (.cls made.1) } := by
    simp only [made, mirrors.scope, mirrors.heap]
    rfl
  have byHand : declareClass ctx name none methods m = _ := declared
  rw [plain, byHand]
  exact .ok (mirrors.heaped _ _)

private theorem declareSubclass (mirrors : Mirrors m s) (inside : s.scope < s.heap.scopes.size) :
    Same ((Manual.step (define name.text .nil) >>= fun _ => makeSubclass name.text methods parent >>= fun c =>
      Manual.step (ByName.assignVariable name c)) m) (Evaluation.declareSubclass name methods parent s) := by
  rw [← mirrors.scope, ← mirrors.heap] at inside
  let opened := m.heap.newScope (some m.registers.scope) [(Names.super, .cls parent)]
  let made := opened.2.newClass ⟨name.text, some parent, methodTable opened.1 methods⟩
  have makes := makeSubclass_eq name.text methods parent
    { m with heap := m.heap.define m.registers.scope name.text .nil }
  simp only [Heap.size_define, Heap.newScope_define m.heap inside] at makes
  have within : m.registers.scope < made.2.scopes.size := Nat.lt_trans inside (m.heap.lt_newScope ..)
  have declared := declare_eq made.2 within name makes
  have plain : Evaluation.declareSubclass name methods parent s =
      .ok () { s with heap := made.2.define m.registers.scope name.text (.cls made.1) } := by
    simp only [made, opened, mirrors.scope, mirrors.heap]
    rfl
  rw [plain, declared]
  exact .ok (mirrors.heaped _ _)

/-- A class that is declared by hand, in a scope that there is. -/
theorem declare : Follows (declareClass ctx name superclass methods) (Host.declare ctx name superclass methods) := by
  intro m s mirrors housed
  have inside := housed _ List.mem_cons_self
  show Same (declareClass ctx name superclass methods m) (Evaluation.declareClass ctx name superclass methods s)
  cases superclass with
  | none => exact declarePlain mirrors inside
  | some ref =>
    have first : Same (Manual.step (superclassOf ctx ref) m) (superclassOf ctx ref s) :=
      step superclassOf_plain m s mirrors housed
    simp only [declareClass, Evaluation.declareClass, Bind.bind, EStateM.bind]
    generalize Manual.step (superclassOf ctx ref) m = result at first ⊢
    cases ran : superclassOf ctx ref s with
    | error stop t =>
      rw [ran] at first
      cases first with
      | error mirrors => exact .error mirrors
    | ok parent t =>
      obtain rfl := superclassOf_eq_ok ran
      rw [ran] at first
      cases first with
      | ok mirrors => exact declareSubclass mirrors inside

private theorem start (follows : Follows x y) : Follows x (Host.start task y) :=
  fun m s mirrors housed => follows m s mirrors (List.forall_mem_cons.1 housed).2

end Follows
end Manual

open Manual in
/-- By hand, all registers are kept in order, and evaluation is what it is without. -/
def byHand (ctx : Context) : Correspondence Manual Traced ctx where
  Values x y := Keeps ctx false x ∧ Follows x y
  Effects returns x y := Keeps ctx returns x ∧ Follows x y
  pure a := ⟨.pure a, .pure a⟩
  bind first next := ⟨first.1.bind fun a => (next a).1, first.2.bind fun a => (next a).2⟩
  step plain := ⟨.step _, .step plain⟩
  call same := ⟨.call fun callable => (same callable).1,
    (Follows.step checkCall_plain).bind fun callable => .deeper (same callable).1 (same callable).2⟩
  body same := ⟨same.1.body, same.2.body⟩
  declare := ⟨.declare _ _ _, .declare⟩
  start same := ⟨same.1, same.2.start⟩
  effects same := ⟨same.1.weaken, same.2⟩
  values := id
  after first next := ⟨first.1.weaken.bind fun a => (next a).1, first.2.bind fun a => (next a).2⟩
  within same := ⟨same.1.within _, same.2.within _⟩
  andThen first second := ⟨first.1.andThen second.1, first.2.andThen second.2⟩
  ret value := ⟨.ret value, .ret value⟩
  startEffects same := ⟨same.1, same.2.start⟩

end Lox.Evaluation
