import Lox.Evaluation

/-! Evaluation on other machines. What an expression or a statement does is put together from steps that
leave the registers alone (the current scope, the depth of calls, the pending return) and from the few
operations that handle them. A host has its own way of doing the latter. Written for any host, the
evaluator is the one that runs when the host is `Eval`; and hosts whose operations correspond evaluate all
programs in corresponding ways. -/
namespace Lox

mutual

/-- Whether a statement may return from the function around it. -/
def Stmt.returns : Stmt → Bool
  | .block body => Stmt.anyReturns body
  | .branch _ thenBranch none => thenBranch.returns
  | .branch _ thenBranch (some elseBranch) => thenBranch.returns || elseBranch.returns
  | .loop _ body => body.returns
  | .ret _ _ => true
  | _ => false

def Stmt.anyReturns : List Stmt → Bool
  | [] => false
  | stmt :: rest => stmt.returns || Stmt.anyReturns rest

end

private theorem Stmt.returns_of_mem (member : stmt ∈ stmts) (returns : stmt.returns = true) :
    Stmt.anyReturns stmts = true := by
  induction stmts with
  | nil => cases member
  | cons first rest ih =>
    rw [Stmt.anyReturns, Bool.or_eq_true]
    rcases List.mem_cons.1 member with rfl | later
    · exact .inl returns
    · exact .inr (ih later)

namespace Evaluation

/-! Registers. -/

structure Registers where
  scope : ScopeId
  depth : Nat
  pending : Option Value

def State.registers (s : State) : Registers := ⟨s.scope, s.depth, s.pending⟩

/-- The state in which an evaluation stands at its end, whether or not it has stopped. -/
def last {ε σ α : Type} : EStateM.Result ε σ α → σ
  | .ok _ s => s
  | .error _ s => s

/-- A computation that leaves the registers as they are. -/
def Plain (x : Eval α) : Prop := ∀ s, (last (x s)).registers = s.registers

namespace Plain

private theorem pure (a : α) : Plain (pure a : Eval α) := fun _ => rfl

theorem throw (stop : Stop) : Plain (throw stop : Eval α) := fun _ => rfl

theorem fault (cause : FaultCause) (blamed : Ident) : Plain (fault cause blamed : Eval α) := fun _ => rfl

private theorem bind {x : Eval α} {f : α → Eval β} (first : Plain x) (next : ∀ a, Plain (f a)) : Plain (x >>= f) := by
  intro s
  have before := first s
  simp only [Bind.bind, EStateM.bind]
  cases ran : x s with
  | ok a t =>
    rw [ran] at before
    exact (next a t).trans before
  | error stop t =>
    rw [ran] at before
    exact before

end Plain

theorem readAt_plain : Plain (readAt scope distance name) := by
  intro s
  unfold readAt
  split <;> rfl

theorem readVariable_plain : Plain (readVariable ctx node name) := by
  intro s
  unfold readVariable
  split
  · exact readAt_plain s
  · split <;> rfl

theorem define_plain : Plain (define name value) := fun _ => rfl

theorem assignVariable_plain : Plain (assignVariable ctx ref value) := by
  intro s
  unfold assignVariable
  split
  · split <;> rfl
  · split <;> rfl

theorem openScope_plain : Plain (openScope parent bindings) := fun _ => rfl

theorem newFunction_plain {c : Closure} : Plain (newFunction c) := fun _ => rfl

private theorem newClass_plain : Plain (newClass c) := fun _ => rfl

theorem newInstance_plain : Plain (newInstance c) := fun _ => rfl

theorem bindMethod_plain : Plain (bindMethod method object) := fun _ => rfl

private theorem boundMethod_plain : Plain (boundMethod method object) :=
  bindMethod_plain.bind fun _ => newFunction_plain

theorem getProperty_plain (value : Value) : Plain (getProperty name value) := by
  cases value with
  | object id =>
    intro s
    unfold getProperty
    simp only
    split
    · rfl
    · split
      · exact boundMethod_plain s
      · rfl
  | _ => exact .fault _ _

theorem setField_plain : Plain (setField object name value) := fun _ => rfl

theorem superMethod_plain : Plain (superMethod ctx node name) := by
  intro s
  unfold superMethod
  split
  · rfl
  · split
    · rfl
    · split
      · rfl
      · split
        · exact boundMethod_plain s
        · rfl
      · rfl
    · rfl

private theorem applyOperator_plain : Plain (applyOperator op symbol line operands) := by
  unfold applyOperator
  split
  · exact .pure _
  · exact .fault _ _

theorem applyUnary_plain : Plain (applyUnary op line value) := by
  unfold applyUnary
  split
  · exact .pure _
  · exact applyOperator_plain

theorem applyBinary_plain : Plain (applyBinary op line left right) := by
  unfold applyBinary
  split
  · exact .pure _
  · exact .pure _
  · exact applyOperator_plain

theorem readClock_plain : Plain (readClock ctx) := fun _ => rfl

theorem currentScope_plain : Plain currentScope := fun _ => rfl

theorem printValue_plain : Plain (printValue value) := fun _ => rfl

theorem superclassOf_plain : Plain (superclassOf ctx ref) := by
  refine readVariable_plain.bind fun value => ?_
  split
  · exact .pure _
  · exact .fault _ _

private theorem declareSubclass_plain : Plain (declareSubclass name methods parent) :=
  currentScope_plain.bind fun _ => openScope_plain.bind fun _ => newClass_plain.bind fun _ => define_plain

theorem declareClass_plain : Plain (declareClass ctx name superclass methods) := by
  unfold declareClass
  split
  · exact currentScope_plain.bind fun _ => newClass_plain.bind fun _ => define_plain
  · exact superclassOf_plain.bind fun _ => declareSubclass_plain

/-! The evaluator for any host. -/

/-- What is evaluated. -/
inductive Task
  | expr (e : Expr)
  | stmt (s : Stmt)

/-- A machine on which programs are evaluated. -/
class Host (m : Type → Type) [Monad m] where
  /-- Does something that leaves the registers alone. -/
  step : Eval α → m α
  /-- Works in another scope and comes back. -/
  within : ScopeId → m Unit → m Unit
  /-- Works one call deeper and comes back. -/
  deeper : m Value → m Value
  /-- Returns from the function around. -/
  ret : Value → m Unit
  /-- Goes on, unless the first part returns. -/
  andThen : m Unit → m Unit → m Unit
  /-- Gives a function's body its value: what it returns, or nil. -/
  body : m Unit → m Value
  /-- Declares a class. -/
  declare (ctx : Context) (name : Ident) (superclass : Option Reference) (methods : List FunctionDecl) : m Unit :=
    step (declareClass ctx name superclass methods)
  /-- Sets about an expression or a statement. -/
  start : Task → m α → m α

/-- Lets a call through: its kind is checked before the number of arguments, and that before the depth. -/
def checkCall (ctx : Context) (callee : Value) (count : Nat) (line : Nat) : Eval Callable := fun s =>
  let paren : Ident := ⟨Text.ofString ")", line⟩
  match callable? s.heap callee with
  | none => fault .notCallable paren s
  | some callable =>
    if count ≠ callable.arity then fault (.wrongArgumentCount callable.arity count) paren s
    else if limitReached ctx s.depth then fault .stackOverflow paren s
    else .ok callable s

theorem checkCall_plain : Plain (checkCall ctx callee count line) := by
  intro s
  unfold checkCall
  simp only
  split
  · rfl
  · split
    · rfl
    · split <;> rfl

namespace Hosted
open Host

variable {m : Type → Type} [Monad m] [Host m]

def runAll (exec : Stmt → m Unit) : List Stmt → m Unit
  | [] => pure ()
  | stmt :: rest => andThen (exec stmt) (runAll exec rest)

def callClosure (exec : Stmt → m Unit) (closure : Closure) (args : List Value) : m Value := do
  let scope ← step (openScope closure.scope (bindParams closure.decl.params args))
  let result ← body (within scope (runAll exec closure.decl.body))
  if closure.isInitializer then step (readAt closure.scope 0 Names.this) else pure result

def invoke (ctx : Context) (exec : Stmt → m Unit) (callable : Callable) (args : List Value) : m Value :=
  match callable with
  | .clock => step (readClock ctx)
  | .function closure => callClosure exec closure args
  | .construct c none => do
    let id ← step (newInstance c)
    pure (.object id)
  | .construct c (some initializer) => do
    let id ← step (newInstance c)
    let bound ← step (bindMethod initializer id)
    let _ ← callClosure exec bound args
    pure (.object id)

def evalAll (eval : Expr → m Value) : List Expr → m (List Value)
  | [] => pure []
  | e :: rest => do
    let value ← eval e
    let values ← evalAll eval rest
    pure (value :: values)

def evalStep (ctx : Context) (eval : Expr → m Value) (exec : Stmt → m Unit) : Expr → m Value
  | .literal value => pure value.toValue
  | .group inner => eval inner
  | .unary op line operand => do
    let value ← eval operand
    step (applyUnary op line value)
  | .binary op line left right => do
    let a ← eval left
    let b ← eval right
    step (applyBinary op line a b)
  | .logical op left right => do
    let a ← eval left
    if settles op a then pure a else eval right
  | .use ref => step (readVariable ctx ref.id ref.name)
  | .assign ref e => do
    let value ← eval e
    step (assignVariable ctx ref value)
    pure value
  | .call callee arguments line => do
    let f ← eval callee
    let args ← evalAll eval arguments
    let callable ← step (checkCall ctx f args.length line)
    deeper (invoke ctx exec callable args)
  | .get object name => do
    let value ← eval object
    step (getProperty name value)
  | .set object name e => do
    match ← eval object with
    | .object id =>
      let value ← eval e
      step (setField id name.text value)
      pure value
    | _ => step (fault .noFields name)
  | .self id line => step (readVariable ctx id ⟨Names.this, line⟩)
  | .superMethod id _ method => step (superMethod ctx id method)

def execStep (ctx : Context) (eval : Expr → m Value) (exec : Stmt → m Unit) : Stmt → m Unit
  | .expression e => do
    let _ ← eval e
  | .print e => do
    let value ← eval e
    step (printValue value)
  | .declare name none => step (define name.text .nil)
  | .declare name (some e) => do
    let value ← eval e
    step (define name.text value)
  | .block stmts => do
    let here ← step currentScope
    let scope ← step (openScope here [])
    within scope (runAll exec stmts)
  | .branch condition thenBranch elseBranch => do
    let value ← eval condition
    if value.truthy then exec thenBranch
    else
      match elseBranch with
      | none => pure ()
      | some other => exec other
  | .loop condition stmt => do
    let value ← eval condition
    if value.truthy then andThen (exec stmt) (exec (.loop condition stmt)) else pure ()
  | .function decl => do
    let here ← step currentScope
    let f ← step (newFunction ⟨decl, here, false⟩)
    step (define decl.name.text f)
  | .ret _ none => ret .nil
  | .ret _ (some e) => do
    let value ← eval e
    ret value
  | .classDef name superclass methods => declare ctx name superclass methods

mutual

def evalExpr (ctx : Context) : Nat → Expr → m Value
  | 0, _ => step (throw .exhausted)
  | n + 1, e => start (.expr e) (evalStep ctx (evalExpr ctx n) (execStmt ctx n) e)

def execStmt (ctx : Context) : Nat → Stmt → m Unit
  | 0, _ => step (throw .exhausted)
  | n + 1, stmt => start (.stmt stmt) (execStep ctx (evalExpr ctx n) (execStmt ctx n) stmt)

end

def execProgram (ctx : Context) (bound : Nat) : List Stmt → m Unit
  | [] => pure ()
  | stmt :: rest => do
    execStmt ctx bound stmt
    execProgram ctx bound rest

end Hosted

/-- The evaluator itself: a return is left pending, and looked for before going on. -/
instance : Host Eval where
  step x := x
  within := inScope
  deeper := nested
  ret := setPending
  andThen x y := x >>= fun _ s => if s.pending.isSome then .ok () s else y s
  body x := do
    x
    takePending
  start _ x := x

private theorem andThen_eq (x y : Eval Unit) :
    Host.andThen x y = (do x; if ← isPending then pure () else y : Eval Unit) := by
  funext s
  simp only [Host.andThen, Bind.bind, EStateM.bind, isPending]
  cases x s with
  | ok a t =>
    simp only
    split <;> rfl
  | error stop t => rfl

private theorem runAll_eq (exec : Stmt → Eval Unit) (stmts : List Stmt) :
    Hosted.runAll exec stmts = runAll exec stmts := by
  induction stmts with
  | nil => rfl
  | cons stmt rest ih =>
    rw [Hosted.runAll, ih]
    rfl

theorem callClosure_eq (exec : Stmt → Eval Unit) (closure : Closure) (args : List Value) :
    Hosted.callClosure exec closure args = callClosure exec closure args := by
  rw [Hosted.callClosure, runAll_eq]
  simp only [Host.body, bind_assoc]
  rfl

private theorem invoke_eq (ctx : Context) (exec : Stmt → Eval Unit) (callable : Callable) (args : List Value) :
    Hosted.invoke ctx exec callable args = invoke ctx exec callable args := by
  unfold Hosted.invoke invoke
  split
  · rfl
  · exact callClosure_eq exec _ args
  · rfl
  · simp only [callClosure_eq]
    rfl

private theorem callValue_eq (ctx : Context) (exec : Stmt → Eval Unit) (callee : Value) (args : List Value)
    (line : Nat) :
    (checkCall ctx callee args.length line >>= fun callable => nested (invoke ctx exec callable args)) =
      callValue ctx exec callee args line := by
  funext s
  simp only [Bind.bind, EStateM.bind, checkCall, callValue]
  cases callable? s.heap callee with
  | none => rfl
  | some callable =>
    by_cases wrong : args.length ≠ callable.arity
    · simp only [if_pos wrong]
      rfl
    · by_cases deep : limitReached ctx s.depth = true
      · simp only [if_neg wrong, if_pos deep]
        rfl
      · simp only [if_neg wrong, if_neg deep]

theorem evalAll_eq (eval : Expr → Eval Value) (es : List Expr) : Hosted.evalAll eval es = evalAll eval es := by
  induction es with
  | nil => rfl
  | cons e rest ih =>
    rw [Hosted.evalAll, ih]
    rfl

theorem evalStep_eq (ctx : Context) (eval : Expr → Eval Value) (exec : Stmt → Eval Unit) (e : Expr) :
    Hosted.evalStep ctx eval exec e = evalStep ctx eval exec e := by
  cases e with
  | call callee arguments line =>
    have calls : ∀ f args, (Host.step (checkCall ctx f args.length line) >>= fun callable =>
        Host.deeper (Hosted.invoke ctx exec callable args)) = callValue ctx exec f args line := by
      intro f args
      simp only [invoke_eq]
      exact callValue_eq ctx exec f args line
    simp only [Hosted.evalStep, evalAll_eq, calls]
    rfl
  | _ => rfl

theorem execStep_eq (ctx : Context) (eval : Expr → Eval Value) (exec : Stmt → Eval Unit) (stmt : Stmt) :
    Hosted.execStep ctx eval exec stmt = execStep ctx eval exec stmt := by
  cases stmt with
  | declare name init => cases init <;> rfl
  | block stmts =>
    rw [Hosted.execStep, runAll_eq]
    rfl
  | loop condition stmt =>
    rw [Hosted.execStep]
    simp only [andThen_eq]
    rfl
  | ret line value => cases value <;> rfl
  | _ => rfl

theorem evalExpr_execStmt_eq (ctx : Context) (n : Nat) :
    Hosted.evalExpr ctx n = evalExpr ctx n ∧ Hosted.execStmt ctx n = execStmt ctx n := by
  induction n with
  | zero => exact ⟨rfl, rfl⟩
  | succ n ih =>
    constructor
    · funext e
      rw [Hosted.evalExpr, ih.1, ih.2, evalStep_eq]
      rfl
    · funext stmt
      rw [Hosted.execStmt, ih.1, ih.2, execStep_eq]
      rfl

theorem execProgram_eq (ctx : Context) (bound : Nat) (stmts : List Stmt) :
    Hosted.execProgram ctx bound stmts = execProgram ctx bound stmts := by
  induction stmts with
  | nil => rfl
  | cons stmt rest ih =>
    rw [Hosted.execProgram, ih, (evalExpr_execStmt_eq ctx bound).2]
    rfl

/-! Corresponding hosts. -/

/-- Computations of two hosts that correspond: those that yield values, and those that have effects and may
return if the truth value says so. -/
structure Correspondence (m m' : Type → Type) [Monad m] [Monad m'] [Host m] [Host m'] (ctx : Context) where
  Values {α : Type} : m α → m' α → Prop
  Effects : Bool → m Unit → m' Unit → Prop
  pure (a : α) : Values (pure a) (pure a)
  bind {x : m α} {f : α → m β} {f' : α → m' β} : Values x x' → (∀ a, Values (f a) (f' a)) →
    Values (x >>= f) (x' >>= f')
  step {x : Eval α} : Plain x → Values (Host.step x) (Host.step x)
  call {f : Callable → m Value} {f' : Callable → m' Value} : (∀ callable, Values (f callable) (f' callable)) →
    Values (Host.step (checkCall ctx callee count line) >>= fun callable => Host.deeper (f callable))
      (Host.step (checkCall ctx callee count line) >>= fun callable => Host.deeper (f' callable))
  body : Effects true x x' → Values (Host.body x) (Host.body x')
  declare : Values (Host.declare ctx name superclass methods) (Host.declare ctx name superclass methods)
  start {x : m α} : Values x x' → Values (Host.start task x) (Host.start task x')
  effects {x : m Unit} : Values x x' → Effects returns x x'
  values : Effects false x x' → Values x x'
  after {x : m α} {f : α → m Unit} {f' : α → m' Unit} : Values x x' → (∀ a, Effects returns (f a) (f' a)) →
    Effects returns (x >>= f) (x' >>= f')
  within : Effects returns x x' → Effects returns (Host.within scope x) (Host.within scope x')
  andThen : Effects returns x x' → Effects returns y y' → Effects returns (Host.andThen x y) (Host.andThen x' y')
  ret (value : Value) : Effects true (Host.ret value) (Host.ret value)
  startEffects : Effects returns x x' → Effects returns (Host.start task x) (Host.start task x')

namespace Correspondence

variable {m m' : Type → Type} [Monad m] [Monad m'] [Host m] [Host m'] {ctx : Context}
  (c : Correspondence m m' ctx) {eval : Expr → m Value} {eval' : Expr → m' Value}
  {exec : Stmt → m Unit} {exec' : Stmt → m' Unit}

include c

private theorem runAll {stmts : List Stmt} (execs : ∀ stmt ∈ stmts, c.Effects returns (exec stmt) (exec' stmt)) :
    c.Effects returns (Hosted.runAll exec stmts) (Hosted.runAll exec' stmts) := by
  induction stmts with
  | nil => exact c.effects (c.pure ())
  | cons stmt rest ih =>
    exact c.andThen (execs stmt List.mem_cons_self) (ih fun other later => execs other (List.mem_cons_of_mem _ later))

theorem evalAll (evals : ∀ e, c.Values (eval e) (eval' e)) (es : List Expr) :
    c.Values (Hosted.evalAll eval es) (Hosted.evalAll eval' es) := by
  induction es with
  | nil => exact c.pure []
  | cons e rest ih => exact c.bind (evals e) fun value => c.bind ih fun values => c.pure _

theorem callClosure (execs : ∀ stmt, c.Effects true (exec stmt) (exec' stmt)) (closure : Closure)
    (args : List Value) :
    c.Values (Hosted.callClosure exec closure args) (Hosted.callClosure exec' closure args) := by
  refine c.bind (c.step openScope_plain) fun scope => ?_
  refine c.bind (c.body (c.within (c.runAll fun stmt _ => execs stmt))) fun result => ?_
  split
  · exact c.step readAt_plain
  · exact c.pure result

private theorem invoke (execs : ∀ stmt, c.Effects true (exec stmt) (exec' stmt)) (callable : Callable)
    (args : List Value) :
    c.Values (Hosted.invoke ctx exec callable args) (Hosted.invoke ctx exec' callable args) := by
  unfold Hosted.invoke
  split
  · exact c.step readClock_plain
  · exact c.callClosure execs _ args
  · exact c.bind (c.step newInstance_plain) fun _ => c.pure _
  · exact c.bind (c.step newInstance_plain) fun _ => c.bind (c.step bindMethod_plain) fun bound =>
      c.bind (c.callClosure execs bound args) fun _ => c.pure _

section

variable (evals : ∀ e, c.Values (eval e) (eval' e))

include evals

theorem evalStep (execs : ∀ stmt, c.Effects true (exec stmt) (exec' stmt)) (e : Expr) :
    c.Values (Hosted.evalStep ctx eval exec e) (Hosted.evalStep ctx eval' exec' e) := by
  cases e with
  | literal value => exact c.pure _
  | group inner => exact evals inner
  | unary op line operand => exact c.bind (evals operand) fun _ => c.step applyUnary_plain
  | binary op line left right =>
    exact c.bind (evals left) fun _ => c.bind (evals right) fun _ => c.step applyBinary_plain
  | logical op left right =>
    refine c.bind (evals left) fun a => ?_
    split
    · exact c.pure a
    · exact evals right
  | use ref => exact c.step readVariable_plain
  | assign ref e =>
    exact c.bind (evals e) fun value => c.bind (c.step assignVariable_plain) fun _ => c.pure value
  | call callee arguments line =>
    exact c.bind (evals callee) fun f => c.bind (c.evalAll evals arguments) fun args =>
      c.call fun callable => c.invoke execs callable args
  | get object name => exact c.bind (evals object) fun value => c.step (getProperty_plain value)
  | set object name e =>
    refine c.bind (evals object) fun found => ?_
    split
    · exact c.bind (evals e) fun value => c.bind (c.step setField_plain) fun _ => c.pure value
    · exact c.step (.fault _ _)
  | self node line => exact c.step readVariable_plain
  | superMethod node line method => exact c.step superMethod_plain

theorem execStep {stmt : Stmt} (allowed : stmt.returns = true → returns = true)
    (execs : ∀ other : Stmt, (other.returns = true → returns = true) →
      c.Effects returns (exec other) (exec' other)) :
    c.Effects returns (Hosted.execStep ctx eval exec stmt) (Hosted.execStep ctx eval' exec' stmt) := by
  cases stmt with
  | expression e => exact c.effects (c.bind (evals e) fun _ => c.pure ())
  | print e => exact c.effects (c.bind (evals e) fun _ => c.step printValue_plain)
  | declare name init =>
    cases init with
    | none => exact c.effects (c.step define_plain)
    | some e => exact c.effects (c.bind (evals e) fun _ => c.step define_plain)
  | block stmts =>
    refine c.after (c.step currentScope_plain) fun here => c.after (c.step openScope_plain) fun scope => ?_
    exact c.within (c.runAll fun stmt member => execs stmt fun leaves => allowed (Stmt.returns_of_mem member leaves))
  | branch condition thenBranch elseBranch =>
    refine c.after (evals condition) fun value => ?_
    cases elseBranch with
    | none =>
      split
      · exact execs thenBranch allowed
      · exact c.effects (c.pure ())
    | some other =>
      split
      · exact execs thenBranch fun leaves => allowed (Bool.or_eq_true_iff.2 (.inl leaves))
      · exact execs other fun leaves => allowed (Bool.or_eq_true_iff.2 (.inr leaves))
  | loop condition stmt =>
    refine c.after (evals condition) fun value => ?_
    split
    · exact c.andThen (execs stmt allowed) (execs (.loop condition stmt) allowed)
    · exact c.effects (c.pure ())
  | function decl =>
    exact c.effects (c.bind (c.step currentScope_plain) fun _ => c.bind (c.step newFunction_plain) fun _ =>
      c.step define_plain)
  | ret line value =>
    obtain rfl := allowed rfl
    cases value with
    | none => exact c.ret _
    | some e => exact c.after (evals e) fun value => c.ret value
  | classDef name superclass methods => exact c.effects c.declare

end

/-- Corresponding hosts evaluate in corresponding ways. -/
theorem evaluation (n : Nat) :
    (∀ e, c.Values (Hosted.evalExpr ctx n e) (Hosted.evalExpr ctx n e)) ∧
    ∀ returns (stmt : Stmt), (stmt.returns = true → returns = true) →
      c.Effects returns (Hosted.execStmt ctx n stmt) (Hosted.execStmt ctx n stmt) := by
  induction n with
  | zero => exact ⟨fun _ => c.step (.throw _), fun _ _ _ => c.effects (c.step (.throw _))⟩
  | succ n ih =>
    obtain ⟨evals, execs⟩ := ih
    constructor
    · intro e
      exact c.start (c.evalStep evals (fun stmt => execs true stmt fun _ => rfl) e)
    · intro returns stmt allowed
      exact c.startEffects (c.execStep evals allowed (execs returns))

/-- A program has no function around it to return from. -/
theorem execProgram (bound : Nat) {stmts : List Stmt} (stays : Stmt.anyReturns stmts = false) :
    c.Values (Hosted.execProgram ctx bound stmts) (Hosted.execProgram ctx bound stmts) := by
  induction stmts with
  | nil => exact c.pure ()
  | cons stmt rest ih =>
    rw [Stmt.anyReturns, Bool.or_eq_false_iff] at stays
    have first := (c.evaluation bound).2 false stmt fun leaves => stays.1.symm.trans leaves
    exact c.bind (c.values first) fun _ => ih stays.2

end Correspondence
end Evaluation
end Lox
