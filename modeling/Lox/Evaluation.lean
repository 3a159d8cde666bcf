import Lox.Fault
import Lox.Heap

/-! Running a program. Expressions yield values and statements have effects on a state: the heap,
the current scope, the depth of calls, a pending return and the lines printed so far.

A return statement leaves its value pending. Blocks and loops stop while a value is pending, and the
call of the function takes it. Evaluation takes a bound on the depth of its own recursion; a bound
that is used up is an ending of its own, apart from faults and breaches. -/

namespace Lox.Evaluation

/-- What stays fixed during a run: the scope distances, the limit on the depth of calls, if there is
one, and the readings of the clock. -/
structure Context where
  locals : Locals
  limit : Option Nat
  clock : Nat → Float

structure State where
  heap : Heap
  scope : ScopeId
  depth : Nat
  pending : Option Value
  output : Array Text
  readings : Nat

/-- The ways evaluation stops before its end. -/
inductive Stop
  | fault (f : Fault)
  | breach (b : Breach)
  | exhausted
  deriving DecidableEq

abbrev Eval := EStateM Stop State

def fault {α : Type} (cause : FaultCause) (blamed : Ident) : Eval α := throw (.fault ⟨cause, blamed⟩)

/-! Variables. -/

/-- Reads a name at a distance from a scope. -/
def readAt (scope : ScopeId) (distance : Nat) (name : Text) : Eval Value := fun s =>
  match s.heap.getAt scope distance name with
  | .ok value => .ok value s
  | .error b => .error (.breach b) s

/-- Reads a variable: at its recorded distance, or else among the globals. -/
def readVariable (ctx : Context) (id : NodeId) (name : Ident) : Eval Value := fun s =>
  match ctx.locals[id]? with
  | some distance => readAt s.scope distance name.text s
  | none =>
    match s.heap.get? Heap.globals name.text with
    | some value => .ok value s
    | none => fault (.undefinedVariable name.text) name s

/-- Binds a name in a given scope. -/
def defineIn (scope : ScopeId) (name : Text) (value : Value) : Eval Unit := fun s =>
  .ok () { s with heap := s.heap.define scope name value }

/-- Binds a name in the current scope. -/
def define (name : Text) (value : Value) : Eval Unit := fun s => defineIn s.scope name value s

/-- Assigns a variable: at its recorded distance, or else among the globals. -/
def assignVariable (ctx : Context) (ref : Reference) (value : Value) : Eval Unit := fun s =>
  match ctx.locals[ref.id]? with
  | some distance =>
    match s.heap.slotAt s.scope distance ref.name.text with
    | .ok target => defineIn target ref.name.text value s
    | .error b => .error (.breach b) s
  | none =>
    match s.heap.owner? Heap.globals ref.name.text with
    | some target => defineIn target ref.name.text value s
    | none => fault (.undefinedVariable ref.name.text) ref.name s

/-! Scopes, functions, classes and instances. -/

def openScope (parent : ScopeId) (bindings : Table Value) : Eval ScopeId := fun s =>
  let (id, heap) := s.heap.newScope (some parent) bindings
  .ok id { s with heap }

def newFunction (closure : Closure) : Eval Value := fun s =>
  let (id, heap) := s.heap.newFunction closure
  .ok (.function id) { s with heap }

def newClass (c : Class) : Eval Value := fun s =>
  let (id, heap) := s.heap.newClass c
  .ok (.cls id) { s with heap }

def newInstance (c : ClassId) : Eval InstanceId := fun s =>
  let (id, heap) := s.heap.newInstance c
  .ok id { s with heap }

def bindMethod (method : Closure) (id : InstanceId) : Eval Closure := fun s =>
  let (closure, heap) := s.heap.bind method id
  .ok closure { s with heap }

/-- A method bound to an instance, as a new function value. -/
def boundMethod (method : Closure) (id : InstanceId) : Eval Value := do
  newFunction (← bindMethod method id)

/-- A property of an instance: a field, or else a method bound to the instance. -/
def getProperty (name : Ident) : Value → Eval Value
  | .object id => fun s =>
    match (s.heap.object id).fields.find? name.text with
    | some value => .ok value s
    | none =>
      match s.heap.method? (s.heap.object id).cls name.text with
      | some method => boundMethod method id s
      | none => fault (.undefinedProperty name.text) name s
  | _ => fault .noProperties name

def setField (id : InstanceId) (name : Text) (value : Value) : Eval Unit := fun s =>
  .ok () { s with heap := s.heap.setField id name value }

/-- The method that `super` names: found from the superclass on, bound to the instance that `this`
names one scope further in. -/
def superMethod (ctx : Context) (id : NodeId) (name : Ident) : Eval Value := fun s =>
  match ctx.locals[id]? with
  | none => .error (.breach .unresolvedSuper) s
  | some distance =>
    match s.heap.getAt s.scope distance Names.super with
    | .error b => .error (.breach b) s
    | .ok (.cls superclass) =>
      match s.heap.getAt s.scope (distance - 1) Names.this with
      | .error b => .error (.breach b) s
      | .ok (.object receiver) =>
        match s.heap.method? superclass name.text with
        | some method => boundMethod method receiver s
        | none => fault (.undefinedProperty name.text) name s
      | .ok _ => .error (.breach .thisNotInstance) s
    | .ok _ => .error (.breach .superNotClass) s

/-! Operators. -/

/-- The fault of an operator whose operands have the wrong kinds. -/
def operandFault : Operator → FaultCause
  | .negate => .operandNotNumber
  | .binary .add => .operandsNotNumbersOrStrings
  | .binary _ => .operandsNotNumbers

def applyOperator (op : Operator) (symbol : Text) (line : Nat) (operands : List Value) : Eval Value :=
  match op.apply operands with
  | .ok value => pure value
  | .error _ => fault (operandFault op) ⟨symbol, line⟩

def applyUnary (op : UnaryOp) (line : Nat) (value : Value) : Eval Value :=
  match op with
  | .not => pure (.bool (!value.truthy))
  | .negate => applyOperator .negate op.symbol line [value]

def applyBinary (op : BinaryOp) (line : Nat) (left right : Value) : Eval Value :=
  match op with
  | .equal => pure (.bool (left.same right))
  | .notEqual => pure (.bool (!left.same right))
  | .arithmetic a => applyOperator (.binary a) op.symbol line [left, right]

/-- Whether the left side of a logical operator is already the result. -/
def settles : LogicalOp → Value → Bool
  | .or, value => value.truthy
  | .and, value => !value.truthy

/-! Sequences, blocks and calls. `exec` runs a statement. -/

/-- Runs statements up to the first that leaves a return pending. -/
@[specialize] def runAll (exec : Stmt → Eval Unit) : List Stmt → Eval Unit
  | [] => pure ()
  | stmt :: rest => do
    exec stmt
    fun s => if s.pending.isSome then .ok () s else runAll exec rest s

/-- Runs `body` in another scope and comes back to the current one. -/
@[inline] def inScope (scope : ScopeId) (body : Eval Unit) : Eval Unit := fun s =>
  let outer := s.scope
  match body { s with scope } with
  | .ok _ s => .ok () { s with scope := outer }
  | .error stop s => .error stop s

/-- The value of the pending return, which is no longer pending; nil if there is none. -/
def takePending : Eval Value := fun s => .ok (s.pending.getD .nil) { s with pending := none }

/-- The bindings of parameters to arguments. -/
def bindParams (params : List Ident) (args : List Value) : Table Value :=
  (params.zip args).foldl (fun table (param, value) => table.insert param.text value) []

/-- Runs the body of a function in a new scope. An initializer yields its instance. -/
@[inline] def callClosure (exec : Stmt → Eval Unit) (closure : Closure) (args : List Value) :
    Eval Value := do
  let scope ← openScope closure.scope (bindParams closure.decl.params args)
  inScope scope (runAll exec closure.decl.body)
  let result ← takePending
  if closure.isInitializer then readAt closure.scope 0 Names.this else pure result

/-- What a callable value does when it is called. -/
inductive Callable
  | clock
  | function (closure : Closure)
  | construct (c : ClassId) (initializer : Option Closure)

def callable? (h : Heap) : Value → Option Callable
  | .clock => some .clock
  | .function id => some (.function (h.function id))
  | .cls id => some (.construct id (h.method? id Names.initializer))
  | _ => none

def Callable.arity : Callable → Nat
  | clock => 0
  | function closure => closure.decl.params.length
  | construct _ none => 0
  | construct _ (some initializer) => initializer.decl.params.length

/-- The next reading of the clock. -/
def readClock (ctx : Context) : Eval Value := fun s =>
  .ok (.number (ctx.clock s.readings)) { s with readings := s.readings + 1 }

@[inline] def invoke (ctx : Context) (exec : Stmt → Eval Unit) (callable : Callable)
    (args : List Value) : Eval Value :=
  match callable with
  | .clock => readClock ctx
  | .function closure => callClosure exec closure args
  | .construct c none => do
    let id ← newInstance c
    pure (.object id)
  | .construct c (some initializer) => do
    let id ← newInstance c
    let bound ← bindMethod initializer id
    let _ ← callClosure exec bound args
    pure (.object id)

/-- Runs a call one level deeper. -/
@[inline] def nested (body : Eval Value) : Eval Value := fun s =>
  match body { s with depth := s.depth + 1 } with
  | .ok value s => .ok value { s with depth := s.depth - 1 }
  | .error stop s => .error stop s

def limitReached (ctx : Context) (depth : Nat) : Bool :=
  match ctx.limit with
  | none => false
  | some limit => limit ≤ depth

/-- Calls a value. Its kind is checked before the number of arguments, and that before the depth. -/
@[inline] def callValue (ctx : Context) (exec : Stmt → Eval Unit) (callee : Value)
    (args : List Value) (line : Nat) : Eval Value := fun s =>
  let paren : Ident := ⟨Text.ofString ")", line⟩
  match callable? s.heap callee with
  | none => fault .notCallable paren s
  | some callable =>
    if args.length ≠ callable.arity then
      fault (.wrongArgumentCount callable.arity args.length) paren s
    else if limitReached ctx s.depth then fault .stackOverflow paren s
    else nested (invoke ctx exec callable args) s

/-! Expressions and statements. -/

@[specialize] def evalAll (eval : Expr → Eval Value) : List Expr → Eval (List Value)
  | [] => pure []
  | e :: rest => do
    let value ← eval e
    let values ← evalAll eval rest
    pure (value :: values)

/-- The value of an expression, from the values of its parts. -/
@[inline] def evalStep (ctx : Context) (eval : Expr → Eval Value) (exec : Stmt → Eval Unit) :
    Expr → Eval Value
  | .literal value => pure value.toValue
  | .group inner => eval inner
  | .unary op line operand => do
    let value ← eval operand
    applyUnary op line value
  | .binary op line left right => do
    let a ← eval left
    let b ← eval right
    applyBinary op line a b
  | .logical op left right => do
    let a ← eval left
    if settles op a then pure a else eval right
  | .use ref => readVariable ctx ref.id ref.name
  | .assign ref e => do
    let value ← eval e
    assignVariable ctx ref value
    pure value
  | .call callee arguments line => do
    let f ← eval callee
    let args ← evalAll eval arguments
    callValue ctx exec f args line
  | .get object name => do
    let value ← eval object
    getProperty name value
  | .set object name e => do
    match ← eval object with
    | .object id =>
      let value ← eval e
      setField id name.text value
      pure value
    | _ => fault .noFields name
  | .self id line => readVariable ctx id ⟨Names.this, line⟩
  | .superMethod id _ method => superMethod ctx id method

def isPending : Eval Bool := fun s => .ok s.pending.isSome s

def currentScope : Eval ScopeId := fun s => .ok s.scope s

def setPending (value : Value) : Eval Unit := fun s => .ok () { s with pending := some value }

def printValue (value : Value) : Eval Unit := fun s =>
  let line := s.heap.text value
  .ok () { s with output := s.output.push line }

/-- The class that a superclass reference names. -/
def superclassOf (ctx : Context) (ref : Reference) : Eval ClassId := do
  match ← readVariable ctx ref.id ref.name with
  | .cls id => pure id
  | _ => fault .superclassNotClass ref.name

/-- The methods of a class; of two with one name the later one counts. -/
def methodTable (home : ScopeId) (methods : List FunctionDecl) : Table Closure :=
  methods.foldl
    (fun table decl =>
      table.insert decl.name.text ⟨decl, home, decl.name.text = Names.initializer⟩)
    []

/-- Declares a class below another one. Its methods live in a scope that binds `super`. -/
def declareSubclass (name : Ident) (methods : List FunctionDecl) (parent : ClassId) : Eval Unit := do
  let home ← openScope (← currentScope) [(Names.super, .cls parent)]
  let c ← newClass ⟨name.text, some parent, methodTable home methods⟩
  define name.text c

/-- Declares a class. -/
def declareClass (ctx : Context) (name : Ident) (superclass : Option Reference)
    (methods : List FunctionDecl) : Eval Unit := do
  match superclass with
  | none =>
    let c ← newClass ⟨name.text, none, methodTable (← currentScope) methods⟩
    define name.text c
  | some ref =>
    let parent ← superclassOf ctx ref
    declareSubclass name methods parent

/-- The effect of a statement, from the effects of its parts. -/
@[inline] def execStep (ctx : Context) (eval : Expr → Eval Value) (exec : Stmt → Eval Unit) :
    Stmt → Eval Unit
  | .expression e => do
    let _ ← eval e
  | .print e => do
    let value ← eval e
    printValue value
  | .declare name none => define name.text .nil
  | .declare name (some e) => do
    let value ← eval e
    define name.text value
  | .block body => do
    let scope ← openScope (← currentScope) []
    inScope scope (runAll exec body)
  | .branch condition thenBranch elseBranch => do
    let value ← eval condition
    if value.truthy then exec thenBranch
    else
      match elseBranch with
      | none => pure ()
      | some other => exec other
  | .loop condition body => do
    let value ← eval condition
    if value.truthy then
      exec body
      if ← isPending then pure () else exec (.loop condition body)
    else pure ()
  | .function decl => do
    let f ← newFunction ⟨decl, ← currentScope, false⟩
    define decl.name.text f
  | .ret _ none => setPending .nil
  | .ret _ (some e) => do
    let value ← eval e
    setPending value
  | .classDef name superclass methods => declareClass ctx name superclass methods

mutual

/-- Evaluates an expression within a bound. -/
def evalExpr (ctx : Context) : Nat → Expr → Eval Value
  | 0, _ => throw .exhausted
  | n + 1, e => evalStep ctx (evalExpr ctx n) (execStmt ctx n) e

/-- Runs a statement within a bound. -/
def execStmt (ctx : Context) : Nat → Stmt → Eval Unit
  | 0, _ => throw .exhausted
  | n + 1, stmt => execStep ctx (evalExpr ctx n) (execStmt ctx n) stmt

end

/-- Runs the statements of a program one after the other. -/
def execProgram (ctx : Context) (bound : Nat) : List Stmt → Eval Unit
  | [] => pure ()
  | stmt :: rest => do
    execStmt ctx bound stmt
    execProgram ctx bound rest

/-- The state at the start of a run: at top level, with nothing printed yet. -/
def State.start (heap : Heap) (readings : Nat) : State := ⟨heap, Heap.globals, 0, none, #[], readings⟩

end Lox.Evaluation
