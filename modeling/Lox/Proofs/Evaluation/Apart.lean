import Lox.Proofs.Evaluation.Moments
import Lox.Proofs.Heap
import Lox.Proofs.Resolution.Mentions

/-! Declarations stay apart. A declaration binds its name in the scope that it is run in, and apart from the scope in
which an evaluation starts, this is always a scope that has been opened since. Nothing else is done to the scopes that
were there before but to give their variables other values. -/
namespace Lox

namespace Heap

/-- What a heap has become when scopes were added: the links between scopes are as they were, and what was bound is
bound. -/
structure Wider (h h' : Heap) : Prop where
  scopes : h.scopes.size ≤ h'.scopes.size
  parent : ∀ {k}, k < h.scopes.size → (h'.scope k).parent = (h.scope k).parent
  bound : ∀ {k name}, (h.scope k).bindings.contains name = true → (h'.scope k).bindings.contains name = true

namespace Wider

theorem refl (h : Heap) : Wider h h := ⟨Nat.le_refl _, fun _ => rfl, id⟩

theorem trans (first : Wider h h') (second : Wider h' h'') : Wider h h'' where
  scopes := Nat.le_trans first.scopes second.scopes
  parent inside := (second.parent (Nat.lt_of_lt_of_le inside first.scopes)).trans (first.parent inside)
  bound here := second.bound (first.bound here)

/-- Functions, classes and instances are not in scopes. -/
theorem of_scopes (same : h'.scopes = h.scopes) : Wider h h' := by
  have scope : ∀ k, h'.scope k = h.scope k := fun k => by rw [Heap.scope, Heap.scope, same]
  refine ⟨Nat.le_of_eq (congrArg Array.size same).symm, ?_, ?_⟩
  · intro k _
    rw [scope]
  · intro k name bound
    rw [scope]
    exact bound

theorem newScope (h : Heap) (parent : Option ScopeId) (bindings : Table Value) :
    Wider h (h.newScope parent bindings).2 := by
  refine ⟨Nat.le_of_lt (lt_newScope ..), ?_, ?_⟩
  · intro k inside
    rw [scope_newScope, if_neg (Nat.ne_of_lt inside)]
  · intro k name bound
    rw [scope_newScope, if_neg (Nat.ne_of_lt (inside_of_contains bound))]
    exact bound

/-- A scope that does not exist is left alone, and any other keeps its link and its names. -/
theorem define (h : Heap) (k : ScopeId) (name : Text) (value : Value) : Wider h (h.define k name value) := by
  have entry : ∀ other, (h.define k name value).scopes[other]? = if k = other then
      (h.scopes[other]?).map (fun s => { s with bindings := s.bindings.insert name value }) else h.scopes[other]? :=
    fun other => Array.getElem?_modify
  refine ⟨Nat.le_of_eq (size_define ..).symm, ?_, ?_⟩
  · intro other _
    rw [scope, scope, entry]
    split
    · cases h.scopes[other]? <;> rfl
    · rfl
  · intro other word bound
    rw [scope] at bound ⊢
    rw [entry]
    split
    · cases here : h.scopes[other]? with
      | none =>
        rw [here] at bound
        cases bound
      | some s =>
        rw [here] at bound
        have still : s.bindings.contains word = true := bound
        simp [still]
    · exact bound

end Wider
end Heap

namespace Evaluation

/-- A computation that adds scopes and takes none away. -/
def Widens (x : Eval α) : Prop := ∀ s : State, s.heap.Wider (last (x s)).heap

namespace Widens

private theorem pure (a : α) : Widens (pure a : Eval α) := fun _ => .refl _

private theorem throw (stop : Stop) : Widens (throw stop : Eval α) := fun _ => .refl _

private theorem fault (cause : FaultCause) (blamed : Ident) : Widens (fault cause blamed : Eval α) := fun _ => .refl _

private theorem bind {x : Eval α} {f : α → Eval β} (first : Widens x) (next : ∀ a, Widens (f a)) :
    Widens (x >>= f) := by
  intro s
  have before := first s
  simp only [Bind.bind, EStateM.bind]
  cases ran : x s with
  | ok a t =>
    rw [ran] at before
    exact before.trans (next a t)
  | error stop t =>
    rw [ran] at before
    exact before

end Widens

private theorem readAt_widens : Widens (readAt scope distance name) := by
  intro s
  unfold readAt
  split <;> exact .refl _

private theorem readVariable_widens : Widens (readVariable ctx node name) := by
  intro s
  unfold readVariable
  split
  · exact readAt_widens s
  · split <;> exact .refl _

private theorem define_widens : Widens (define name value) := fun _ => .define ..

private theorem assignVariable_widens : Widens (assignVariable ctx ref value) := by
  intro s
  unfold assignVariable
  split
  · split
    · exact .define ..
    · exact .refl _
  · split
    · exact .define ..
    · exact .refl _

private theorem openScope_widens : Widens (openScope parent bindings) := fun _ => .newScope ..

private theorem newFunction_widens {c : Closure} : Widens (newFunction c) := fun _ => .of_scopes rfl

private theorem newClass_widens : Widens (newClass c) := fun _ => .of_scopes rfl

private theorem newInstance_widens : Widens (newInstance c) := fun _ => .of_scopes rfl

private theorem bindMethod_widens : Widens (bindMethod method object) := fun _ => .newScope ..

private theorem boundMethod_widens :
    Widens (boundMethod method object) := bindMethod_widens.bind fun _ => newFunction_widens

private theorem getProperty_widens (value : Value) : Widens (getProperty name value) := by
  cases value with
  | object id =>
    intro s
    unfold getProperty
    simp only
    split
    · exact .refl _
    · split
      · exact boundMethod_widens s
      · exact .refl _
  | _ => exact .fault _ _

private theorem setField_widens : Widens (setField object name value) := fun _ => .of_scopes rfl

private theorem superMethod_widens : Widens (superMethod ctx node name) := by
  intro s
  unfold superMethod
  split
  · exact .refl _
  · split
    · exact .refl _
    · split
      · exact .refl _
      · split
        · exact boundMethod_widens s
        · exact .refl _
      · exact .refl _
    · exact .refl _

private theorem applyOperator_widens : Widens (applyOperator op symbol line operands) := by
  unfold applyOperator
  split
  · exact .pure _
  · exact .fault _ _

private theorem applyUnary_widens : Widens (applyUnary op line value) := by
  unfold applyUnary
  split
  · exact .pure _
  · exact applyOperator_widens

private theorem applyBinary_widens : Widens (applyBinary op line left right) := by
  unfold applyBinary
  split
  · exact .pure _
  · exact .pure _
  · exact applyOperator_widens

private theorem readClock_widens : Widens (readClock ctx) := fun _ => .refl _

private theorem currentScope_widens : Widens currentScope := fun _ => .refl _

private theorem printValue_widens : Widens (printValue value) := fun _ => .refl _

private theorem declareClass_widens : Widens (declareClass ctx name superclass methods) := by
  unfold declareClass
  split
  · exact currentScope_widens.bind fun _ => newClass_widens.bind fun _ => define_widens
  · refine .bind ?_ fun _ => currentScope_widens.bind fun _ => openScope_widens.bind fun _ =>
      newClass_widens.bind fun _ => define_widens
    refine readVariable_widens.bind fun value => ?_
    split
    · exact .pure _
    · exact .fault _ _

private theorem checkCall_widens : Widens (checkCall ctx callee count line) := by
  intro s
  unfold checkCall
  simp only
  split
  · exact .refl _
  · split
    · exact .refl _
    · split <;> exact .refl _

/-! Going into a scope, a call or a body and out of it again moves the registers alone. -/

private theorem inScope_heap : (last (inScope scope x s)).heap = (last (x { s with scope })).heap := by
  unfold inScope
  cases x { s with scope } <;> rfl

private theorem nested_heap : (last (nested x s)).heap = (last (x { s with depth := s.depth + 1 })).heap := by
  unfold nested
  cases x { s with depth := s.depth + 1 } <;> rfl

private theorem body_heap {x : Eval Unit} : (last ((x >>= fun _ => takePending) s)).heap = (last (x s)).heap := by
  simp only [Bind.bind, EStateM.bind]
  cases x s <;> rfl

/-! Moments. -/

/-- What declares a name is run in one of the scopes from `base` on. -/
def Moment.DeclaresFrom (base : ScopeId) (moment : Moment) : Prop :=
  ∀ stmt : Stmt, moment.event = .start (.stmt stmt) → stmt.declares ≠ [] → base ≤ moment.state.scope

/-- A computation that declares names in scopes from `base` on alone, where there are scopes below it. If it declares
names in the scope that it is started in, this has to be one of them. -/
structure Apart (base : ScopeId) (declares : Prop) (x : Traced α) : Prop where
  wider (s : State) : base ≤ s.heap.scopes.size → s.heap.Wider (last (x.run s)).heap
  back {s t : State} {a} : base ≤ s.heap.scopes.size → x.run s = .ok a t → t.scope = s.scope
  apart (s : State) : base ≤ s.heap.scopes.size → (declares → base ≤ s.scope) →
    ∀ moment ∈ x.trace s, moment.DeclaresFrom base

/-- A value that a computation may come to. -/
def Yields (base : ScopeId) (x : Traced α) (a : α) : Prop :=
  ∃ s t : State, base ≤ s.heap.scopes.size ∧ x.run s = .ok a t

namespace Apart

variable {base : ScopeId} {declares : Prop}

private theorem inside {x : Traced α} (first : Apart base declares x) (inside : base ≤ s.heap.scopes.size)
    (ran : x.run s = .ok a t) : base ≤ t.heap.scopes.size := by
  have wider := first.wider s inside
  rw [ran] at wider
  exact Nat.le_trans inside wider.scopes

private theorem imp {declares' : Prop} {x : Traced α} (first : Apart base declares x) (more : declares → declares') :
    Apart base declares' x :=
  { first with apart := fun s inside here => first.apart s inside fun own => here (more own) }

private theorem pure (a : α) : Apart base declares (pure a) := by
  refine ⟨fun _ _ => .refl _, ?_, fun _ _ _ => nofun⟩
  rintro s _ _ _ ⟨⟩
  rfl

private theorem bind {x : Traced α} {f : α → Traced β} (first : Apart base declares x)
    (next : ∀ a, Yields base x a → Apart base declares (f a)) : Apart base declares (x >>= f) := by
  constructor
  · intro s inside
    have before := first.wider s inside
    have all : (x >>= f).run s = EStateM.bind x.run (fun a => (f a).run) s := rfl
    rw [all, EStateM.bind]
    cases ran : x.run s with
    | ok a t =>
      rw [ran] at before
      exact before.trans ((next a ⟨s, t, inside, ran⟩).wider t (first.inside inside ran))
    | error stop t =>
      rw [ran] at before
      exact before
  · intro s u b inside ran
    obtain ⟨a, t, ranFirst, ranNext⟩ := bind_eq_ok ran
    have late := (next a ⟨s, t, inside, ranFirst⟩).back (first.inside inside ranFirst) ranNext
    exact late.trans (first.back inside ranFirst)
  · intro s inside here moment member
    rcases List.mem_append.1 member with early | late
    · exact first.apart s inside here moment early
    · obtain ⟨a, t, ran, member⟩ := mem_onward late
      refine (next a ⟨s, t, inside, ran⟩).apart t (first.inside inside ran) ?_ moment member
      rw [first.back inside ran]
      exact here

/-- A step declares nothing: what it binds, the statement around it declares. -/
theorem step {x : Eval α} (plain : Plain x) (widens : Widens x) : Apart base declares (Host.step x) := by
  refine ⟨fun s _ => widens s, ?_, ?_⟩
  · intro s t a _ ran
    have kept := plain s
    have same : x s = .ok a t := ran
    rw [same] at kept
    exact congrArg Registers.scope kept
  · intro s _ _ moment member stmt started
    rw [List.mem_singleton.1 member] at started
    cases started

/-- In a new scope names may be declared. -/
theorem within {x : Traced Unit} (new : base ≤ scope) (inner : Apart base True x) :
    Apart base declares (Host.within scope x) := by
  constructor
  · intro s inside
    have all : (Host.within scope x).run s = inScope scope x.run s := rfl
    rw [all, inScope_heap]
    exact inner.wider { s with scope } inside
  · intro s u _ _ ran
    obtain ⟨t, _, rfl⟩ := inScope_eq_ok ran
    rfl
  · intro s inside _ moment member
    rcases List.mem_cons.1 member with rfl | member
    · nofun
    rcases List.mem_append.1 member with early | late
    · exact inner.apart { s with scope } inside (fun _ => new) moment early
    · obtain ⟨_, t, _, member⟩ := mem_onward late
      rw [List.mem_singleton.1 member]
      nofun

private theorem deeper {x : Traced Value} (inner : Apart base declares x) : Apart base declares (Host.deeper x) := by
  constructor
  · intro s inside
    have all : (Host.deeper x).run s = nested x.run s := rfl
    rw [all, nested_heap]
    exact inner.wider { s with depth := s.depth + 1 } inside
  · intro s u _ inside ran
    obtain ⟨t, ranInner, rfl⟩ := nested_eq_ok ran
    have same := inner.back (s := { s with depth := s.depth + 1 }) inside ranInner
    exact same
  · intro s inside here moment member
    rcases List.mem_cons.1 member with rfl | member
    · nofun
    rcases List.mem_append.1 member with early | late
    · exact inner.apart { s with depth := s.depth + 1 } inside here moment early
    · obtain ⟨_, t, _, member⟩ := mem_onward late
      rw [List.mem_singleton.1 member]
      nofun

private theorem ret (value : Value) : Apart base declares (Host.ret value) := by
  refine ⟨fun _ _ => .refl _, ?_, ?_⟩
  · rintro s _ _ _ ⟨⟩
    rfl
  · intro s _ _ moment member
    rw [List.mem_singleton.1 member]
    nofun

private theorem andThen {x y : Traced Unit} (first : Apart base declares x) (second : Apart base declares y) :
    Apart base declares (Host.andThen x y) := by
  constructor
  · intro s inside
    have before := first.wider s inside
    have all : (Host.andThen x y).run s =
        EStateM.bind x.run (fun _ s => if s.pending.isSome then .ok () s else y.run s) s := rfl
    rw [all]
    unfold EStateM.bind
    cases ran : x.run s with
    | ok a t =>
      rw [ran] at before
      by_cases pending : t.pending.isSome = true
      · simp only [if_pos pending]
        exact before
      · simp only [if_neg pending]
        exact before.trans (second.wider t (first.inside inside ran))
    | error stop t =>
      rw [ran] at before
      exact before
  · intro s u _ inside ran
    obtain ⟨t, ranFirst, ⟨_, rfl⟩ | ⟨_, ranSecond⟩⟩ := andThen_eq_ok ran
    · exact first.back inside ranFirst
    · exact (second.back (first.inside inside ranFirst) ranSecond).trans (first.back inside ranFirst)
  · intro s inside here moment member
    rcases List.mem_append.1 member with early | late
    · exact first.apart s inside here moment early
    · obtain ⟨_, t, ran, member⟩ := mem_onward late
      by_cases pending : t.pending.isSome = true
      · rw [if_pos pending] at member
        rw [List.mem_singleton.1 member]
        nofun
      · rw [if_neg pending] at member
        refine second.apart t (first.inside inside ran) ?_ moment member
        rw [first.back inside ran]
        exact here

private theorem body {x : Traced Unit} (inner : Apart base declares x) : Apart base declares (Host.body x) := by
  constructor
  · intro s inside
    have all : (Host.body x).run s = (x.run >>= fun _ => takePending) s := rfl
    rw [all, body_heap]
    exact inner.wider s inside
  · intro s u _ inside ran
    obtain ⟨t, ranBody, rfl⟩ := body_eq_ok ran
    have same := inner.back inside ranBody
    exact same
  · intro s inside here moment member
    rcases List.mem_append.1 member with early | late
    · exact inner.apart s inside here moment early
    · obtain ⟨_, t, _, member⟩ := mem_onward late
      rw [List.mem_singleton.1 member]
      nofun

private theorem start {x : Traced α} (inner : Apart base declares x)
    (own : ∀ stmt : Stmt, task = .stmt stmt → stmt.declares ≠ [] → declares) :
    Apart base declares (Host.start task x) := by
  refine ⟨inner.wider, inner.back, ?_⟩
  intro s inside here moment member
  rcases List.mem_cons.1 member with rfl | member
  · intro stmt started declared
    cases started
    exact here (own stmt rfl declared)
  · exact inner.apart s inside here moment member

end Apart

section

variable {base : ScopeId} {eval : Expr → Traced Value} {exec : Stmt → Traced Unit}
  (evals : ∀ e, Apart base False (eval e)) (execs : ∀ stmt : Stmt, Apart base (stmt.declares ≠ []) (exec stmt))

/-- A scope that is opened comes after those that were there. -/
theorem openScope_yields (opened : Yields base (Host.step (openScope parent bindings)) scope) : base ≤ scope := by
  obtain ⟨s, t, inside, ran⟩ := opened
  cases ran
  exact inside

private theorem evalAll_apart (evals : ∀ e, Apart base False (eval e)) (es : List Expr) :
    Apart base False (Hosted.evalAll eval es) := by
  induction es with
  | nil => exact .pure _
  | cons e rest ih => exact (evals e).bind fun _ _ => ih.bind fun _ _ => .pure _

include execs

private theorem runAll_apart (stmts : List Stmt) : Apart base True (Hosted.runAll exec stmts) := by
  induction stmts with
  | nil => exact .pure _
  | cons stmt rest ih => exact ((execs stmt).imp fun _ => trivial).andThen ih

private theorem callClosure_apart (closure : Closure) (args : List Value) :
    Apart base False (Hosted.callClosure exec closure args) := by
  refine (Apart.step openScope_plain openScope_widens).bind fun scope opened => ?_
  refine (Apart.within (openScope_yields opened) (runAll_apart execs _)).body.bind fun result _ => ?_
  split
  · exact .step readAt_plain readAt_widens
  · exact .pure _

private theorem invoke_apart (ctx : Context) (callable : Callable) (args : List Value) :
    Apart base False (Hosted.invoke ctx exec callable args) := by
  unfold Hosted.invoke
  split
  · exact .step readClock_plain readClock_widens
  · exact callClosure_apart execs _ args
  · exact (Apart.step newInstance_plain newInstance_widens).bind fun _ _ => .pure _
  · refine (Apart.step newInstance_plain newInstance_widens).bind fun _ _ => ?_
    refine (Apart.step bindMethod_plain bindMethod_widens).bind fun bound _ => ?_
    exact (callClosure_apart execs bound args).bind fun _ _ => .pure _

include evals

private theorem evalStep_apart (ctx : Context) (e : Expr) : Apart base False (Hosted.evalStep ctx eval exec e) := by
  cases e with
  | literal value => exact .pure _
  | group inner => exact evals inner
  | unary op line operand => exact (evals operand).bind fun _ _ => .step applyUnary_plain applyUnary_widens
  | binary op line left right =>
    exact (evals left).bind fun _ _ => (evals right).bind fun _ _ => .step applyBinary_plain applyBinary_widens
  | logical op left right =>
    refine (evals left).bind fun a _ => ?_
    split
    · exact .pure _
    · exact evals right
  | use ref => exact .step readVariable_plain readVariable_widens
  | assign ref e =>
    exact (evals e).bind fun _ _ => (Apart.step assignVariable_plain assignVariable_widens).bind fun _ _ => .pure _
  | call callee arguments line =>
    refine (evals callee).bind fun f _ => (evalAll_apart evals arguments).bind fun args _ => ?_
    exact (Apart.step checkCall_plain checkCall_widens).bind fun callable _ =>
      (invoke_apart execs ctx callable args).deeper
  | get object name =>
    exact (evals object).bind fun value _ => .step (getProperty_plain value) (getProperty_widens value)
  | set object name e =>
    refine (evals object).bind fun found _ => ?_
    split
    · exact (evals e).bind fun _ _ => (Apart.step setField_plain setField_widens).bind fun _ _ => .pure _
    · exact .step (.fault _ _) (.fault _ _)
  | self node line => exact .step readVariable_plain readVariable_widens
  | superMethod node line method => exact .step superMethod_plain superMethod_widens

private theorem execStep_apart (ctx : Context) (stmt : Stmt) :
    Apart base (stmt.declares ≠ []) (Hosted.execStep ctx eval exec stmt) := by
  have evals : ∀ {declares : Prop} e, Apart base declares (eval e) := fun e => (evals e).imp False.elim
  cases stmt with
  | expression e => exact (evals e).bind fun _ _ => .pure _
  | print e => exact (evals e).bind fun _ _ => .step printValue_plain printValue_widens
  | declare name init =>
    cases init with
    | none => exact .step define_plain define_widens
    | some e => exact (evals e).bind fun _ _ => .step define_plain define_widens
  | block stmts =>
    refine (Apart.step currentScope_plain currentScope_widens).bind fun here _ => ?_
    refine (Apart.step openScope_plain openScope_widens).bind fun scope opened => ?_
    exact .within (openScope_yields opened) (runAll_apart execs stmts)
  | branch condition thenBranch elseBranch =>
    refine (evals condition).bind fun value _ => ?_
    cases elseBranch with
    | none =>
      split
      · exact execs thenBranch
      · exact .pure _
    | some other =>
      split
      · exact (execs thenBranch).imp fun own => List.append_ne_nil_of_left_ne_nil own _
      · exact (execs other).imp fun own => List.append_ne_nil_of_right_ne_nil _ own
  | loop condition stmt =>
    refine (evals condition).bind fun value _ => ?_
    split
    · exact (execs stmt).andThen (execs (.loop condition stmt))
    · exact .pure _
  | function decl =>
    refine (Apart.step currentScope_plain currentScope_widens).bind fun here _ => ?_
    exact (Apart.step newFunction_plain newFunction_widens).bind fun f _ => .step define_plain define_widens
  | ret line value =>
    cases value with
    | none => exact .ret _
    | some e => exact (evals e).bind fun value _ => .ret value
  | classDef name superclass methods => exact .step declareClass_plain declareClass_widens

end

/-- Where evaluation starts and stops, and where it declares names in between. -/
theorem evaluation_apart (base : ScopeId) (ctx : Context) (n : Nat) :
    (∀ e, Apart base False (Hosted.evalExpr ctx n e)) ∧
      ∀ stmt : Stmt, Apart base (stmt.declares ≠ []) (Hosted.execStmt ctx n stmt) := by
  induction n with
  | zero => exact ⟨fun _ => .step (.throw _) (.throw _), fun _ => .step (.throw _) (.throw _)⟩
  | succ n ih =>
    constructor
    · intro e
      refine (evalStep_apart ih.1 ih.2 ctx e).start fun stmt other => ?_
      cases other
    · intro stmt
      refine (execStep_apart ih.1 ih.2 ctx stmt).start fun other same own => ?_
      cases same
      exact own

end Evaluation
end Lox
