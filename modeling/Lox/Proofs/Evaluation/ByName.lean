import Lox.Proofs.Evaluation.Declared

/-! Evaluation without distances. A variable can also be looked for by its name, in one scope after the other
from the current one outwards. In programs whose mentions are clear this has the same effect. -/
namespace Lox

namespace Evaluation.ByName

/-- Reads a variable from the nearest scope that binds it. -/
def readVariable (name : Ident) : Eval Value := fun s =>
  match s.heap.get? s.scope name.text with
  | some value => .ok value s
  | none => fault (.undefinedVariable name.text) name s

/-- Assigns a variable in the nearest scope that binds it. -/
def assignVariable (name : Ident) (value : Value) : Eval Unit := fun s =>
  match s.heap.assign? s.scope name.text value with
  | some heap => .ok () { s with heap }
  | none => fault (.undefinedVariable name.text) name s

def superclassOf (name : Ident) : Eval ClassId := do
  match ← readVariable name with
  | .cls id => pure id
  | _ => fault .superclassNotClass name

/-- The value of an expression. Variables and `this` are found by name; `super`, which is none, by its distance. -/
def evalStep (ctx : Context) (eval : Expr → Eval Value) (exec : Stmt → Eval Unit) : Expr → Eval Value
  | .use ref => readVariable ref.name
  | .assign ref e => do
    let value ← eval e
    assignVariable ref.name value
    pure value
  | .self _ line => readVariable ⟨Names.this, line⟩
  | e => Evaluation.evalStep ctx eval exec e

/-- The effect of a statement; a superclass is found by name too. -/
def execStep (ctx : Context) (eval : Expr → Eval Value) (exec : Stmt → Eval Unit) : Stmt → Eval Unit
  | .classDef name (some ref) methods => do
    let parent ← superclassOf ref.name
    declareSubclass name methods parent
  | stmt => Evaluation.execStep ctx eval exec stmt

mutual

def evalExpr (ctx : Context) : Nat → Expr → Eval Value
  | 0, _ => throw .exhausted
  | n + 1, e => evalStep ctx (evalExpr ctx n) (execStmt ctx n) e

def execStmt (ctx : Context) : Nat → Stmt → Eval Unit
  | 0, _ => throw .exhausted
  | n + 1, stmt => execStep ctx (evalExpr ctx n) (execStmt ctx n) stmt

end

def execProgram (ctx : Context) (bound : Nat) : List Stmt → Eval Unit
  | [] => pure ()
  | stmt :: rest => do
    execStmt ctx bound stmt
    execProgram ctx bound rest

end Evaluation.ByName

namespace Declared

open Evaluation

/-! Both ways of evaluation. -/

/-- Later states, back in the same scope. -/
structure Later (ν : List (List Text)) (s : State) (μ : List (List Text)) (t : State) : Prop where
  grows : Grows s.heap ν t.heap μ
  scope : t.scope = s.scope

private theorem Later.refl : Later ν s ν s := ⟨.refl, rfl⟩

private theorem Later.trans (first : Later ν s μ t) (second : Later μ t κ u) : Later ν s κ u :=
  ⟨first.grows.trans second.grows, second.scope.trans first.scope⟩

/-- Evaluation with distances and evaluation by name have the same result, in an orderly heap, unless the first
one breaks an assumption about resolved names. -/
inductive Agree (P : Mention → Prop) (ν : List (List Text)) (s : State) :
    EStateM.Result Stop State α → EStateM.Result Stop State α → Prop where
  | ok (later : Later ν s μ t) (heap : Orderly P μ t.heap) : Agree P ν s (.ok a t) (.ok a t)
  | stopped (heap : Orderly P μ t.heap) : Agree P ν s (.error stop t) (.error stop t)
  | breached : Agree P ν s (.error (.breach b) t) result

private theorem Agree.after (later : Later ν s μ t) (agree : Agree P μ t r r') : Agree P ν s r r' := by
  cases agree with
  | ok further heap => exact .ok (later.trans further) heap
  | stopped heap => exact .stopped heap
  | breached => exact .breached

private theorem Agree.bind {x y : Eval α} {f g : α → Eval β} (first : Agree P ν s (x s) (y s))
    (next : ∀ {μ a t}, Later ν s μ t → Orderly P μ t.heap → Agree P μ t (f a t) (g a t)) :
    Agree P ν s ((x >>= f) s) ((y >>= g) s) := by
  simp only [Bind.bind, EStateM.bind]
  generalize x s = r at first
  generalize y s = r' at first
  cases first with
  | ok later heap => exact (next later heap).after later
  | stopped heap => exact .stopped heap
  | breached => exact .breached

/-- A state in an orderly heap, in scopes that declare these names. -/
structure At (P : Mention → Prop) (ν : List (List Text)) (Δ : List (List Text)) (s : State) : Prop where
  heap : Orderly P ν s.heap
  chain : Chain s.heap ν s.scope Δ

private theorem At.later (here : At P ν Δ s) (later : Later ν s μ t) (heap : Orderly P μ t.heap) : At P μ Δ t :=
  ⟨heap, later.scope ▸ here.chain.grow later.grows⟩

/-- Two computations that agree in all such states. -/
def Agrees (P : Mention → Prop) (Δ : List (List Text)) (x y : Eval α) : Prop :=
  ∀ ν s, At P ν Δ s → Agree P ν s (x s) (y s)

section

variable {P : Mention → Prop} {Δ : List (List Text)}

private theorem Agrees.bind {x y : Eval α} {f g : α → Eval β} (first : Agrees P Δ x y)
    (next : ∀ a, Agrees P Δ (f a) (g a)) : Agrees P Δ (x >>= f) (y >>= g) :=
  fun _ _ here => (first _ _ here).bind fun later heap => next _ _ _ (here.later later heap)

private theorem Agrees.pure (a : α) : Agrees P Δ (pure a) (pure a) := fun _ _ here => .ok .refl here.heap

private theorem Agrees.fault (cause : FaultCause) (blamed : Ident) :
    Agrees P Δ (fault cause blamed : Eval α) (fault cause blamed) := fun _ _ here => .stopped here.heap

/-! Variables. -/

private theorem readVariable_agrees {ctx : Context} {node : NodeId} {name : Ident}
    (clear : Mention.Clear ctx.locals ⟨node, name.text, Δ⟩) :
    Agrees P Δ (readVariable ctx node name) (ByName.readVariable name) := by
  intro ν s here
  unfold Mention.Clear Mention.passed at clear
  unfold readVariable ByName.readVariable
  cases recorded : ctx.locals[node]? with
  | some d =>
    simp only [recorded] at clear
    simp only [readAt, Heap.getAt]
    cases found : s.heap.slotAt s.scope d name.text with
    | error b => exact .breached
    | ok target =>
      simp only [Except.bind, Heap.get?, owner?_of_slotAt here.heap here.chain clear found, Option.bind_some]
      cases s.heap.find? target name.text with
      | none => exact .breached
      | some value => exact .ok .refl here.heap
  | none =>
    simp only [recorded] at clear
    simp only [Heap.get?, owner?_of_passed here.heap here.chain clear]
    cases (s.heap.owner? Heap.globals name.text).bind fun owner => s.heap.find? owner name.text with
    | none => exact .stopped here.heap
    | some value => exact .ok .refl here.heap

private theorem readAt_agree (heap : Orderly P ν s.heap) : Agree P ν s (readAt k d name s) (readAt k d name s) := by
  unfold readAt
  split
  · exact .ok .refl heap
  · exact .breached

/-- A scope that binds a name already may bind it again. -/
theorem rebind_agree (heap : Orderly P ν s.heap) (owner : s.heap.owner? k name = some target) (value : Value) :
    Agree P ν s (defineIn target name value s) (.ok () { s with heap := s.heap.define target name value }) := by
  have bound := Heap.contains_of_owner? owner
  obtain ⟨grows, orderly⟩ := heap.define (Heap.inside_of_contains bound)
    (fun apart names declares => heap.binds apart declares bound) value
  exact .ok ⟨grows, rfl⟩ orderly

private theorem assignVariable_agrees {ctx : Context} {ref : Reference}
    (clear : Mention.Clear ctx.locals ⟨ref.id, ref.name.text, Δ⟩) (value : Value) :
    Agrees P Δ (assignVariable ctx ref value) (ByName.assignVariable ref.name value) := by
  intro ν s here
  unfold Mention.Clear Mention.passed at clear
  unfold assignVariable ByName.assignVariable
  cases recorded : ctx.locals[ref.id]? with
  | some d =>
    simp only [recorded] at clear
    cases found : s.heap.slotAt s.scope d ref.name.text with
    | error b =>
      simp only [found]
      exact .breached
    | ok target =>
      have owner := owner?_of_slotAt here.heap here.chain clear found
      simp only [found, Heap.assign?, owner, Option.map_some]
      exact rebind_agree here.heap owner value
  | none =>
    simp only [recorded] at clear
    simp only [Heap.assign?, owner?_of_passed here.heap here.chain clear]
    cases owner : s.heap.owner? Heap.globals ref.name.text with
    | none => exact .stopped here.heap
    | some target => exact rebind_agree here.heap owner value

private theorem superclassOf_agrees {ctx : Context} {ref : Reference}
    (clear : Mention.Clear ctx.locals ⟨ref.id, ref.name.text, Δ⟩) :
    Agrees P Δ (superclassOf ctx ref) (ByName.superclassOf ref.name) := by
  refine (readVariable_agrees clear).bind fun value => ?_
  cases value with
  | cls id => exact .pure id
  | _ => exact .fault _ _

/-- What is declared in the current scope is one of the names it declares. -/
theorem define_agrees (declared : ∀ names ∈ Δ.head?, name ∈ names) (value : Value) :
    Agrees P Δ (define name value) (define name value) := by
  intro ν s here
  have inside : s.scope < s.heap.scopes.size := here.heap.size ▸ here.chain.inside here.heap.inhabited
  obtain ⟨grows, orderly⟩ := here.heap.define inside
    (fun apart names declares => declared names (here.chain.head? apart declares)) value
  exact .ok ⟨grows, rfl⟩ orderly

/-! Scopes, functions, classes and instances. -/

/-- A scope for one word binds no other. -/
theorem mem_of_single {value : Value} (bound : Table.contains [(word, value)] name = true) : name ∈ [word] := by
  obtain ⟨_, found⟩ := Table.contains_eq_true.1 bound
  rw [Table.find?_single] at found
  split at found
  · rename_i same
    exact List.mem_singleton.2 same.symm
  · cases found

/-- A new scope binds no more than it declares. -/
theorem openScope_agree {f g : ScopeId → Eval α} (heap : Orderly P ν s.heap) (chain : Chain s.heap ν parent Δ)
    (binds : ∀ name, Table.contains bindings name = true → name ∈ names)
    (next : ∀ {μ t home}, Later ν s μ t → Orderly P μ t.heap → Chain t.heap μ home (names :: Δ) →
      Agree P μ t (f home t) (g home t)) :
    Agree P ν s ((openScope parent bindings >>= f) s) ((openScope parent bindings >>= g) s) := by
  obtain ⟨grows, orderly⟩ := heap.newScope binds parent
  have later : Later ν s (ν ++ [names]) { s with heap := (s.heap.newScope (some parent) bindings).2 } := ⟨grows, rfl⟩
  exact (next later orderly (heap.chain_newScope chain grows)).after later

private theorem inScope_agree {x y : Eval Unit} (heap : Orderly P ν s.heap) (chain : Chain s.heap ν scope Δ)
    (inner : Agrees P Δ x y) : Agree P ν s (inScope scope x s) (inScope scope y s) := by
  have agree := inner ν { s with scope } ⟨heap, chain⟩
  unfold inScope
  generalize x { s with scope } = r at agree ⊢
  generalize y { s with scope } = r' at agree ⊢
  cases agree with
  | ok later heap => exact .ok ⟨later.grows, rfl⟩ heap
  | stopped heap => exact .stopped heap
  | breached => exact .breached

private theorem newFunction_agree (heap : Orderly P ν s.heap) (placed : Placed P s.heap ν [] c) :
    Agree P ν s (newFunction c s) (newFunction c s) :=
  .ok ⟨.of_scopes rfl, rfl⟩ (heap.newFunction placed)

/-- A bound method stands in a scope that binds `this`. -/
theorem bindMethod_agree {f g : Closure → Eval α} {method : Closure} (heap : Orderly P ν s.heap)
    (placed : Placed P s.heap ν [[Names.this]] method)
    (next : ∀ {μ t bound}, Later ν s μ t → Orderly P μ t.heap → Placed P t.heap μ [] bound →
      Agree P μ t (f bound t) (g bound t)) :
    Agree P ν s ((bindMethod method object >>= f) s) ((bindMethod method object >>= g) s) := by
  obtain ⟨Δ, chain, good⟩ := placed
  have binds : ∀ name, Table.contains [(Names.this, Value.object object)] name = true → name ∈ [Names.this] :=
    fun _ => mem_of_single
  exact openScope_agree (f := fun home => f { method with scope := home })
    (g := fun home => g { method with scope := home }) heap chain binds
    fun later heap chain => next later heap ⟨_, chain, good⟩

private theorem boundMethod_agree {method : Closure} (heap : Orderly P ν s.heap)
    (placed : Placed P s.heap ν [[Names.this]] method) :
    Agree P ν s (boundMethod method object s) (boundMethod method object s) :=
  bindMethod_agree heap placed fun _ heap placed => newFunction_agree heap placed

private theorem newInstance_agree (heap : Orderly P ν s.heap) (c : ClassId) :
    Agree P ν s (newInstance c s) (newInstance c s) :=
  .ok ⟨.of_scopes rfl, rfl⟩ (heap.withInstances _)

private theorem setField_agrees (id : InstanceId) (name : Text) (value : Value) :
    Agrees P Δ (setField id name value) (setField id name value) :=
  fun _ _ here => .ok ⟨.of_scopes rfl, rfl⟩ (here.heap.withInstances _)

private theorem getProperty_agrees (name : Ident) (value : Value) :
    Agrees P Δ (getProperty name value) (getProperty name value) := by
  cases value with
  | object id =>
    intro ν s here
    unfold getProperty
    simp only
    split
    · exact .ok .refl here.heap
    · split
      · rename_i found
        exact boundMethod_agree here.heap (here.heap.method? found)
      · exact .stopped here.heap
  | _ => exact .fault _ _

private theorem superMethod_agrees (ctx : Context) (node : NodeId) (name : Ident) :
    Agrees P Δ (superMethod ctx node name) (superMethod ctx node name) := by
  intro ν s here
  unfold superMethod
  split
  · exact .breached
  · split
    · exact .breached
    · split
      · exact .breached
      · split
        · rename_i found
          exact boundMethod_agree here.heap (here.heap.method? found)
        · exact .stopped here.heap
      · exact .breached
    · exact .breached

/-- A class is declared whose methods stand in scopes that are known. -/
theorem newClass_agree {ν : List (List Text)} {s : State} {name : Ident} (here : At P ν Δ s)
    (declared : ∀ names ∈ Δ.head?, name.text ∈ names) (home : Chain s.heap ν k Δ')
    (good : ∀ m ∈ FunctionDecl.mentionsAll ([Names.this] :: Δ') methods, P m) (parent : Option ClassId) :
    Agree P ν s ((newClass ⟨name.text, parent, methodTable k methods⟩ >>= define name.text) s)
      ((newClass ⟨name.text, parent, methodTable k methods⟩ >>= define name.text) s) := by
  rw [FunctionDecl.mentionsAll_eq] at good
  have placed : ∀ {name} {closure : Closure}, (methodTable k methods).find? name = some closure →
      Placed P s.heap ν [[Names.this]] closure := by
    intro name closure found
    obtain ⟨member, rfl⟩ := mem_of_methodTable found
    exact ⟨Δ', home, fun m mentioned => good m (List.mem_flatMap.2 ⟨_, member, mentioned⟩)⟩
  have made : Agree P ν s (newClass ⟨name.text, parent, methodTable k methods⟩ s)
      (newClass ⟨name.text, parent, methodTable k methods⟩ s) :=
    .ok ⟨.of_scopes rfl, rfl⟩ (here.heap.newClass placed)
  exact made.bind fun later heap => define_agrees declared _ _ _ (here.later later heap)

private theorem declareSubclass_agrees {name : Ident} (declared : ∀ names ∈ Δ.head?, name.text ∈ names)
    (good : ∀ m ∈ FunctionDecl.mentionsAll ([Names.this] :: [Names.super] :: Δ) methods, P m) (parent : ClassId) :
    Agrees P Δ (declareSubclass name methods parent) (declareSubclass name methods parent) := by
  intro ν s here
  let make (home : ScopeId) : Eval Unit :=
    newClass ⟨name.text, some parent, methodTable home methods⟩ >>= define name.text
  have binds : ∀ bound, Table.contains [(Names.super, Value.cls parent)] bound = true → bound ∈ [Names.super] :=
    fun _ => mem_of_single
  exact openScope_agree (f := make) (g := make) here.heap here.chain binds fun later heap chain =>
    newClass_agree (here.later later heap) declared chain good (some parent)

/-! Operators. -/

private theorem applyOperator_agrees (op : Operator) (symbol : Text) (line : Nat) (operands : List Value) :
    Agrees P Δ (applyOperator op symbol line operands) (applyOperator op symbol line operands) := by
  unfold applyOperator
  split
  · exact .pure _
  · exact .fault _ _

private theorem applyUnary_agrees (op : UnaryOp) (line : Nat) (value : Value) :
    Agrees P Δ (applyUnary op line value) (applyUnary op line value) := by
  cases op with
  | not => exact .pure _
  | negate => exact applyOperator_agrees _ _ _ _

private theorem applyBinary_agrees (op : BinaryOp) (line : Nat) (left right : Value) :
    Agrees P Δ (applyBinary op line left right) (applyBinary op line left right) := by
  cases op with
  | equal | notEqual => exact .pure _
  | arithmetic a => exact applyOperator_agrees _ _ _ _

end

/-! Sequences and calls. -/

/-- Code whose mentions are all good where it stands, and which declares nothing that the scope around it does
not. -/
structure Fits (P : Mention → Prop) (Δ : List (List Text)) (stmt : Stmt) : Prop where
  good : ∀ m ∈ stmt.mentions Δ, P m
  declared : ∀ names ∈ Δ.head?, ∀ name ∈ stmt.declares, name ∈ names

/-- Statements in a scope that declares all that they declare. -/
theorem fits_of_mem (good : ∀ m ∈ Stmt.mentionsAll (names :: Δ) body, P m)
    (declared : ∀ name ∈ Stmt.declaresAll body, name ∈ names) (member : stmt ∈ body) : Fits P (names :: Δ) stmt := by
  rw [Stmt.mentionsAll_eq] at good
  constructor
  · exact fun m mentioned => good m (List.mem_flatMap.2 ⟨stmt, member, mentioned⟩)
  · intro _ top name here
    cases top
    exact declared name (List.mem_flatMap.2 ⟨stmt, member, here⟩)

section

variable {P : Mention → Prop} {Δ : List (List Text)} {eval eval' : Expr → Eval Value} {exec exec' : Stmt → Eval Unit}

private theorem runAll_agrees {stmts : List Stmt} (execs : ∀ stmt ∈ stmts, Agrees P Δ (exec stmt) (exec' stmt)) :
    Agrees P Δ (runAll exec stmts) (runAll exec' stmts) := by
  induction stmts with
  | nil => exact .pure ()
  | cons stmt rest ih =>
    refine (execs stmt List.mem_cons_self).bind fun _ ν s here => ?_
    split
    · exact .ok .refl here.heap
    · exact ih (fun other later => execs other (List.mem_cons_of_mem _ later)) ν s here

private theorem evalAll_agrees {es : List Expr} (evals : ∀ e ∈ es, Agrees P Δ (eval e) (eval' e)) :
    Agrees P Δ (evalAll eval es) (evalAll eval' es) := by
  induction es with
  | nil => exact .pure []
  | cons e rest ih =>
    refine (evals e List.mem_cons_self).bind fun value => ?_
    exact (ih fun other later => evals other (List.mem_cons_of_mem _ later)).bind fun values => .pure _

/-- Arguments are bound to parameters only. -/
theorem mem_of_bindParams {params : List Ident} {args : List Value}
    (bound : (bindParams params args).contains name = true) : name ∈ params.map (·.text) := by
  obtain ⟨value, found⟩ := Table.contains_eq_true.1 bound
  obtain ⟨⟨param, member, rfl⟩, -⟩ := exists_of_bindParams found
  exact List.mem_map_of_mem member

variable (execs : ∀ Δ stmt, Fits P Δ stmt → Agrees P Δ (exec stmt) (exec' stmt))

include execs

private theorem callClosure_agree {closure : Closure} (heap : Orderly P ν s.heap)
    (placed : Placed P s.heap ν [] closure)
    (args : List Value) : Agree P ν s (callClosure exec closure args s) (callClosure exec' closure args s) := by
  obtain ⟨Δ, chain, good⟩ := placed
  obtain ⟨⟨name, params, body⟩, scope, isInitializer⟩ := closure
  have binds : ∀ bound, (bindParams params args).contains bound = true →
      bound ∈ FunctionDecl.declares ⟨name, params, body⟩ :=
    fun _ bound => List.mem_append_left _ (mem_of_bindParams bound)
  have statements : ∀ stmt ∈ body, Agrees P (FunctionDecl.declares ⟨name, params, body⟩ :: Δ) (exec stmt) (exec' stmt) :=
    fun stmt member => execs _ stmt (fits_of_mem good (fun _ declared => List.mem_append_right _ declared) member)
  refine openScope_agree heap chain binds fun {μ t home} _ heap chain => ?_
  refine (inScope_agree heap chain (runAll_agrees statements)).bind fun {μ _ t} _ heap => ?_
  have taken : Agree P μ t (takePending t) (takePending t) := .ok ⟨.refl, rfl⟩ heap
  refine taken.bind fun _ heap => ?_
  split
  · exact readAt_agree heap
  · exact .ok .refl heap

/-- What a call runs is well placed. -/
def Ready (P : Mention → Prop) (h : Heap) (ν : List (List Text)) : Callable → Prop :=
  Callable.Holds (Placed P h ν []) (Placed P h ν [[Names.this]])

private theorem invoke_agree (heap : Orderly P ν s.heap) (ready : Ready P s.heap ν callable) (ctx : Context)
    (args : List Value) :
    Agree P ν s (invoke ctx exec callable args s) (invoke ctx exec' callable args s) := by
  cases callable with
  | clock => exact .ok ⟨.refl, rfl⟩ heap
  | function closure => exact callClosure_agree execs heap ready args
  | construct c initializer =>
    cases initializer with
    | none => exact (newInstance_agree heap c).bind fun _ heap => .ok .refl heap
    | some initializer =>
      refine (newInstance_agree heap c).bind fun later heap => ?_
      refine bindMethod_agree heap (ready.grow later.grows) fun _ heap placed => ?_
      exact (callClosure_agree execs heap placed args).bind fun _ heap => .ok .refl heap

omit execs in
private theorem nested_agree {x y : Eval Value}
    (inner : Agree P ν { s with depth := s.depth + 1 } (x { s with depth := s.depth + 1 })
      (y { s with depth := s.depth + 1 })) : Agree P ν s (nested x s) (nested y s) := by
  unfold nested
  generalize x { s with depth := s.depth + 1 } = r at inner ⊢
  generalize y { s with depth := s.depth + 1 } = r' at inner ⊢
  cases inner with
  | ok later heap => exact .ok ⟨later.grows, later.scope⟩ heap
  | stopped heap => exact .stopped heap
  | breached => exact .breached

private theorem callValue_agrees (ctx : Context) (callee : Value) (args : List Value) (line : Nat) :
    Agrees P Δ (callValue ctx exec callee args line) (callValue ctx exec' callee args line) := by
  intro ν s here
  simp only [callValue]
  split
  · exact .stopped here.heap
  · rename_i called
    split
    · exact .stopped here.heap
    · split
      · exact .stopped here.heap
      · exact nested_agree (invoke_agree (s := { s with depth := s.depth + 1 }) execs here.heap
          (callable?_holds here.heap.function here.heap.method called) ctx args)

end

/-! Expressions and statements. -/

section

variable {P : Mention → Prop} {ctx : Context} (clear : ∀ m, P m → m.Clear ctx.locals)
  {eval eval' : Expr → Eval Value} {exec exec' : Stmt → Eval Unit}
  (evals : ∀ Δ e, (∀ m ∈ Expr.mentions Δ e, P m) → Agrees P Δ (eval e) (eval' e))
  (execs : ∀ Δ stmt, Fits P Δ stmt → Agrees P Δ (exec stmt) (exec' stmt))

include clear evals execs

private theorem evalStep_agrees (Δ : List (List Text)) (e : Expr) (good : ∀ m ∈ e.mentions Δ, P m) :
    Agrees P Δ (evalStep ctx eval exec e) (ByName.evalStep ctx eval' exec' e) := by
  cases e with
  | literal value => exact .pure _
  | group inner => exact evals Δ inner good
  | unary op line operand => exact (evals Δ operand good).bind fun value => applyUnary_agrees op line value
  | binary op line left right =>
    obtain ⟨first, second⟩ := List.forall_mem_append.1 good
    exact (evals Δ left first).bind fun a => (evals Δ right second).bind fun b => applyBinary_agrees op line a b
  | logical op left right =>
    obtain ⟨first, second⟩ := List.forall_mem_append.1 good
    refine (evals Δ left first).bind fun a => ?_
    split
    · exact .pure a
    · exact evals Δ right second
  | use ref => exact readVariable_agrees (clear _ (good _ List.mem_cons_self))
  | assign ref e =>
    obtain ⟨inner, own⟩ := List.forall_mem_append.1 good
    refine (evals Δ e inner).bind fun value => ?_
    exact (assignVariable_agrees (clear _ (own _ List.mem_cons_self)) value).bind fun _ => .pure value
  | call callee arguments line =>
    obtain ⟨first, others⟩ := List.forall_mem_append.1 good
    refine (evals Δ callee first).bind fun f => ?_
    rw [Expr.mentionsAll_eq] at others
    have values : ∀ e ∈ arguments, Agrees P Δ (eval e) (eval' e) := fun e member =>
      evals Δ e fun m mentioned => others m (List.mem_flatMap.2 ⟨e, member, mentioned⟩)
    exact (evalAll_agrees values).bind fun args => callValue_agrees execs ctx f args line
  | get object name => exact (evals Δ object good).bind fun value => getProperty_agrees name value
  | set object name e =>
    obtain ⟨second, first⟩ := List.forall_mem_append.1 good
    refine (evals Δ object first).bind fun found => ?_
    cases found with
    | object id => exact (evals Δ e second).bind fun value => (setField_agrees id _ value).bind fun _ => .pure value
    | _ => exact .fault _ _
  | self node line => exact readVariable_agrees (clear _ (good _ List.mem_cons_self))
  | superMethod node line method => exact superMethod_agrees ctx node method

private theorem execStep_agrees (Δ : List (List Text)) (stmt : Stmt) (fits : Fits P Δ stmt) :
    Agrees P Δ (execStep ctx eval exec stmt) (ByName.execStep ctx eval' exec' stmt) := by
  obtain ⟨good, declared⟩ := fits
  cases stmt with
  | expression e => exact (evals Δ e good).bind fun _ => .pure ()
  | print e => exact (evals Δ e good).bind fun _ _ _ here => .ok ⟨.refl, rfl⟩ here.heap
  | declare name init =>
    have named : ∀ names ∈ Δ.head?, name.text ∈ names := fun names top => declared names top _ List.mem_cons_self
    cases init with
    | none => exact define_agrees named _
    | some e => exact (evals Δ e good).bind fun value => define_agrees named value
  | block body =>
    intro ν s here
    have statements : ∀ stmt ∈ body, Agrees P (Stmt.declaresAll body :: Δ) (exec stmt) (exec' stmt) :=
      fun stmt member => execs _ stmt (fits_of_mem good (fun _ => id) member)
    exact openScope_agree here.heap here.chain (fun _ bound => by cases bound) fun _ heap chain =>
      inScope_agree heap chain (runAll_agrees statements)
  | branch condition thenBranch elseBranch =>
    cases elseBranch with
    | none =>
      obtain ⟨first, second⟩ := List.forall_mem_append.1 good
      refine (evals Δ condition first).bind fun value => ?_
      split
      · exact execs Δ thenBranch ⟨second, declared⟩
      · exact .pure ()
    | some elseBranch =>
      obtain ⟨first, others⟩ := List.forall_mem_append.1 good
      obtain ⟨second, third⟩ := List.forall_mem_append.1 others
      refine (evals Δ condition first).bind fun value => ?_
      split
      · exact execs Δ thenBranch ⟨second, fun names top name here =>
          declared names top name (List.mem_append_left _ here)⟩
      · exact execs Δ elseBranch ⟨third, fun names top name here =>
          declared names top name (List.mem_append_right _ here)⟩
  | loop condition body =>
    obtain ⟨first, second⟩ := List.forall_mem_append.1 good
    refine (evals Δ condition first).bind fun value => ?_
    split
    · refine (execs Δ body ⟨second, declared⟩).bind fun _ => ?_
      have pending : Agrees P Δ isPending isPending := fun _ _ here => .ok .refl here.heap
      refine pending.bind fun stops => ?_
      split
      · exact .pure ()
      · exact execs Δ (.loop condition body) ⟨good, declared⟩
    · exact .pure ()
  | function decl =>
    intro ν s here
    have made : Agree P ν s (newFunction ⟨decl, s.scope, false⟩ s) (newFunction ⟨decl, s.scope, false⟩ s) :=
      newFunction_agree here.heap ⟨Δ, here.chain, good⟩
    exact made.bind fun later heap =>
      define_agrees (fun names top => declared names top _ List.mem_cons_self) _ _ _ (here.later later heap)
  | ret line value =>
    have returns : ∀ value, Agrees P Δ (setPending value) (setPending value) :=
      fun _ _ _ here => .ok ⟨.refl, rfl⟩ here.heap
    cases value with
    | none => exact returns _
    | some e => exact (evals Δ e good).bind returns
  | classDef name superclass methods =>
    have named : ∀ names ∈ Δ.head?, name.text ∈ names := fun names top => declared names top _ List.mem_cons_self
    cases superclass with
    | none => exact fun ν s here => newClass_agree here named here.chain good none
    | some ref =>
      obtain ⟨own, inner⟩ := List.forall_mem_cons.1 good
      exact (superclassOf_agrees (clear _ own)).bind fun parent => declareSubclass_agrees named inner parent

end

/-- Where mentions are clear, evaluation by name does what evaluation with distances does. -/
theorem evaluation_agrees {P : Mention → Prop} {ctx : Context} (clear : ∀ m, P m → m.Clear ctx.locals) (n : Nat) :
    (∀ Δ e, (∀ m ∈ Expr.mentions Δ e, P m) → Agrees P Δ (evalExpr ctx n e) (ByName.evalExpr ctx n e)) ∧
      ∀ Δ stmt, Fits P Δ stmt → Agrees P Δ (execStmt ctx n stmt) (ByName.execStmt ctx n stmt) := by
  induction n with
  | zero =>
    constructor
    · intro Δ e _ ν s here
      exact .stopped here.heap
    · intro Δ stmt _ ν s here
      exact .stopped here.heap
  | succ n ih =>
    obtain ⟨evals, execs⟩ := ih
    exact ⟨evalStep_agrees clear evals execs, execStep_agrees clear evals execs⟩

/-- At top level anything may be declared. -/
theorem execProgram_agrees {P : Mention → Prop} {ctx : Context} (clear : ∀ m, P m → m.Clear ctx.locals) (bound : Nat)
    {stmts : List Stmt} (good : ∀ m ∈ Stmt.mentionsAll [] stmts, P m) :
    Agrees P [] (execProgram ctx bound stmts) (ByName.execProgram ctx bound stmts) := by
  induction stmts with
  | nil => exact .pure ()
  | cons stmt rest ih =>
    obtain ⟨first, others⟩ := List.forall_mem_append.1 good
    exact ((evaluation_agrees clear bound).2 [] stmt ⟨first, fun _ top => by cases top⟩).bind fun _ => ih others
end Declared
end Lox
