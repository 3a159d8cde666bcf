import Lox.Proofs.Heap

/-! Termination without loops. Where no statement is a loop, only calls can go on forever, and under a
limit on their depth they cannot: an expression needs no more than its own size and, for each call that
may still be nested, the size of the largest function body. -/
namespace Lox

mutual

/-- Whether there is a loop in a statement or in the functions declared in it. -/
def Stmt.loops : Stmt → Bool
  | .block body => Stmt.anyLoops body
  | .branch _ thenBranch none => thenBranch.loops
  | .branch _ thenBranch (some elseBranch) => thenBranch.loops || elseBranch.loops
  | .loop _ _ => true
  | .function decl => decl.loops
  | .classDef _ _ methods => FunctionDecl.anyLoops methods
  | _ => false

def Stmt.anyLoops : List Stmt → Bool
  | [] => false
  | stmt :: rest => stmt.loops || Stmt.anyLoops rest

def FunctionDecl.loops : FunctionDecl → Bool
  | ⟨_, _, body⟩ => Stmt.anyLoops body

def FunctionDecl.anyLoops : List FunctionDecl → Bool
  | [] => false
  | decl :: rest => decl.loops || FunctionDecl.anyLoops rest

end

theorem Stmt.loops_of_mem (free : Stmt.anyLoops stmts = false) (member : stmt ∈ stmts) : stmt.loops = false := by
  induction stmts with
  | nil => cases member
  | cons first rest ih =>
    rw [Stmt.anyLoops, Bool.or_eq_false_iff] at free
    rcases List.mem_cons.1 member with rfl | later
    · exact free.1
    · exact ih free.2 later

private theorem FunctionDecl.loops_of_mem (free : FunctionDecl.anyLoops decls = false) (member : decl ∈ decls) :
    decl.loops = false := by
  induction decls with
  | nil => cases member
  | cons first rest ih =>
    rw [FunctionDecl.anyLoops, Bool.or_eq_false_iff] at free
    rcases List.mem_cons.1 member with rfl | later
    · exact free.1
    · exact ih free.2 later

/-- A body without loops, of statements of limited size. -/
def FunctionDecl.Brief (most : Nat) (decl : FunctionDecl) : Prop :=
  ∀ stmt ∈ decl.body, stmt.loops = false ∧ sizeOf stmt ≤ most

private theorem FunctionDecl.brief {decl : FunctionDecl} (free : decl.loops = false) (small : sizeOf decl ≤ most) :
    decl.Brief most := by
  obtain ⟨name, params, body⟩ := decl
  intro stmt member
  refine ⟨Stmt.loops_of_mem free member, ?_⟩
  have part : sizeOf stmt < sizeOf body := List.sizeOf_lt_of_mem member
  simp only [FunctionDecl.mk.sizeOf_spec] at small
  omega

theorem FunctionDecl.Brief.mono (brief : FunctionDecl.Brief most decl) (less : most ≤ more) : decl.Brief more :=
  fun stmt member => ⟨(brief stmt member).1, Nat.le_trans (brief stmt member).2 less⟩

namespace Evaluation

/-- A result, at depth `k` again if there is one, that leaves what is known of functions intact and does
not stop for want of a bound if there was enough. -/
inductive Ended (P : FunctionDecl → Prop) (k : Nat) (enough : Prop) : EStateM.Result Stop State α → Prop where
  | ok (holds : t.heap.Holds P) (depth : t.depth = k) : Ended P k enough (.ok a t)
  | stopped (holds : t.heap.Holds P) (left : stop = .exhausted → ¬ enough) : Ended P k enough (.error stop t)

/-- A computation that ends so wherever it starts. -/
def Ends (P : FunctionDecl → Prop) (k : Nat) (enough : Prop) (x : Eval α) : Prop :=
  ∀ s, s.heap.Holds P → s.depth = k → Ended P k enough (x s)

section

variable {P : FunctionDecl → Prop} {k : Nat} {enough : Prop}

private theorem Ended.fault {s : State} (holds : s.heap.Holds P) (cause : FaultCause) (blamed : Ident) :
    Ended P k enough (fault cause blamed s : EStateM.Result Stop State α) :=
  .stopped holds fun used => by cases used

private theorem Ended.breach (holds : Heap.Holds P (State.heap t)) :
    Ended P k enough (.error (.breach b) t : EStateM.Result Stop State α) :=
  .stopped holds fun used => by cases used

namespace Ends

private theorem pure (a : α) : Ends P k enough (pure a : Eval α) := fun _ holds depth => .ok holds depth

private theorem fault (cause : FaultCause) (blamed : Ident) : Ends P k enough (fault cause blamed : Eval α) :=
  fun _ holds _ => .fault holds cause blamed

private theorem imp {x : Eval α} (ends : Ends P k enough x) (weaker : enough' → enough) : Ends P k enough' x := by
  intro s holds depth
  have ended := ends s holds depth
  generalize x s = result at ended ⊢
  cases ended with
  | ok holds depth => exact .ok holds depth
  | stopped holds left => exact .stopped holds fun used given => left used (weaker given)

private theorem bind {x : Eval α} {f : α → Eval β} (first : Ends P k enough x) (next : ∀ a, Ends P k enough (f a)) :
    Ends P k enough (x >>= f) := by
  intro s holds depth
  have ended := first s holds depth
  simp only [Bind.bind, EStateM.bind]
  generalize x s = result at ended ⊢
  cases ended with
  | ok holds depth => exact next _ _ holds depth
  | stopped holds left => exact .stopped holds left

private theorem inScope {x : Eval Unit} (inner : Ends P k enough x) (scope : ScopeId) :
    Ends P k enough (inScope scope x) := by
  intro s holds depth
  have ended := inner { s with scope } holds depth
  simp only [Evaluation.inScope]
  generalize x { s with scope } = result at ended ⊢
  cases ended with
  | ok holds depth => exact .ok holds depth
  | stopped holds left => exact .stopped holds left

private theorem nested {x : Eval Value} (inner : Ends P (k + 1) enough x) : Ends P k enough (nested x) := by
  intro s holds depth
  have ended := inner { s with depth := s.depth + 1 } holds (congrArg (· + 1) depth)
  simp only [Evaluation.nested]
  generalize x { s with depth := s.depth + 1 } = result at ended ⊢
  cases ended with
  | ok holds deeper => exact .ok holds (by simp only [deeper, Nat.add_sub_cancel])
  | stopped holds left => exact .stopped holds left

end Ends

/-! Operations. -/

private theorem readAt_ends : Ends P k enough (readAt scope distance name) := by
  intro s holds depth
  unfold readAt
  split
  · exact .ok holds depth
  · exact .breach holds

private theorem readVariable_ends : Ends P k enough (readVariable ctx node name) := by
  intro s holds depth
  unfold readVariable
  split
  · exact readAt_ends s holds depth
  · split
    · exact .ok holds depth
    · exact .fault holds _ _

private theorem define_ends : Ends P k enough (define name value) :=
  fun _ holds depth => .ok (holds.congr rfl rfl) depth

private theorem assignVariable_ends : Ends P k enough (assignVariable ctx ref value) := by
  intro s holds depth
  unfold assignVariable
  split
  · split
    · exact .ok (holds.congr rfl rfl) depth
    · exact .breach holds
  · split
    · exact .ok (holds.congr rfl rfl) depth
    · exact .fault holds _ _

private theorem openScope_ends : Ends P k enough (openScope parent bindings) :=
  fun _ holds depth => .ok (holds.congr rfl rfl) depth

private theorem newFunction_ends {closure : Closure} (known : P closure.decl) : Ends P k enough (newFunction closure) :=
  fun _ holds depth => .ok (holds.newFunction known) depth

private theorem newClass_ends {c : Class}
    (known : ∀ {name} {closure : Closure}, c.methods.find? name = some closure → P closure.decl) :
    Ends P k enough (newClass c) :=
  fun _ holds depth => .ok (holds.newClass known) depth

private theorem newInstance_ends : Ends P k enough (newInstance c) :=
  fun _ holds depth => .ok (holds.congr rfl rfl) depth

/-- Binding a method changes its scope and not its declaration. -/
theorem bindMethod_ends {method : Closure} {f : Closure → Eval α}
    (next : ∀ closure, closure.decl = method.decl → Ends P k enough (f closure)) :
    Ends P k enough (bindMethod method object >>= f) := by
  intro s holds depth
  exact next (s.heap.bind method object).1 rfl { s with heap := (s.heap.bind method object).2 }
    (holds.congr rfl rfl) depth

private theorem boundMethod_ends {id : InstanceId} (known : P method.decl) : Ends P k enough (boundMethod method id) :=
  bindMethod_ends fun _ same => newFunction_ends (same ▸ known)

private theorem getProperty_ends {value : Value} : Ends P k enough (getProperty name value) := by
  cases value with
  | object id =>
    intro s holds depth
    unfold getProperty
    simp only
    split
    · exact .ok holds depth
    · split
      · rename_i found
        exact boundMethod_ends (holds.method? found) s holds depth
      · exact .fault holds _ _
  | _ => exact .fault _ _

private theorem setField_ends : Ends P k enough (setField object name value) :=
  fun _ holds depth => .ok (holds.congr rfl rfl) depth

private theorem superMethod_ends : Ends P k enough (superMethod ctx node name) := by
  intro s holds depth
  unfold superMethod
  split
  · exact .breach holds
  · split
    · exact .breach holds
    · split
      · exact .breach holds
      · split
        · rename_i found
          exact boundMethod_ends (holds.method? found) s holds depth
        · exact .fault holds _ _
      · exact .breach holds
    · exact .breach holds

private theorem applyOperator_ends : Ends P k enough (applyOperator op symbol line operands) := by
  unfold applyOperator
  split
  · exact .pure _
  · exact .fault _ _

private theorem applyUnary_ends : Ends P k enough (applyUnary op line value) := by
  cases op with
  | not => exact .pure _
  | negate => exact applyOperator_ends

private theorem applyBinary_ends : Ends P k enough (applyBinary op line left right) := by
  cases op with
  | equal | notEqual => exact .pure _
  | arithmetic a => exact applyOperator_ends

private theorem takePending_ends : Ends P k enough takePending := fun _ holds depth => .ok holds depth

private theorem setPending_ends : Ends P k enough (setPending value) := fun _ holds depth => .ok holds depth

private theorem currentScope_ends : Ends P k enough currentScope := fun _ holds depth => .ok holds depth

private theorem printValue_ends : Ends P k enough (printValue value) := fun _ holds depth => .ok holds depth

private theorem readClock_ends : Ends P k enough (readClock ctx) := fun _ holds depth => .ok holds depth

private theorem superclassOf_ends : Ends P k enough (superclassOf ctx ref) := by
  refine readVariable_ends.bind fun value => ?_
  split
  · exact .pure _
  · exact .fault _ _

private theorem declareClass_ends (ctx : Context) (name : Ident) (superclass : Option Reference)
    {methods : List FunctionDecl} (known : ∀ decl ∈ methods, P decl) :
    Ends P k enough (declareClass ctx name superclass methods) := by
  have classes : ∀ home parent, Ends P k enough (newClass ⟨name.text, parent, methodTable home methods⟩ >>=
      define name.text) := fun home parent =>
    (newClass_ends fun found => known _ (mem_of_methodTable found).1).bind fun _ => define_ends
  unfold declareClass
  cases superclass with
  | none => exact currentScope_ends.bind fun home => classes home none
  | some ref =>
    exact superclassOf_ends.bind fun parent => currentScope_ends.bind fun _ =>
      openScope_ends.bind fun home => classes home (some parent)

/-! Sequences and calls. -/

private theorem runAll_ends {exec : Stmt → Eval Unit} {stmts : List Stmt}
    (execs : ∀ stmt ∈ stmts, Ends P k enough (exec stmt)) : Ends P k enough (runAll exec stmts) := by
  induction stmts with
  | nil => exact .pure _
  | cons stmt rest ih =>
    refine (execs stmt List.mem_cons_self).bind fun _ s holds depth => ?_
    split
    · exact .ok holds depth
    · exact ih (fun other later => execs other (List.mem_cons_of_mem _ later)) s holds depth

private theorem evalAll_ends {eval : Expr → Eval Value} {es : List Expr}
    (evals : ∀ e ∈ es, Ends P k enough (eval e)) : Ends P k enough (evalAll eval es) := by
  induction es with
  | nil => exact .pure _
  | cons e rest ih =>
    refine (evals e List.mem_cons_self).bind fun _ => ?_
    exact (ih fun other later => evals other (List.mem_cons_of_mem _ later)).bind fun _ => .pure _

private theorem callClosure_ends {exec : Stmt → Eval Unit} {closure : Closure}
    (execs : ∀ stmt ∈ closure.decl.body, Ends P k enough (exec stmt)) (args : List Value) :
    Ends P k enough (callClosure exec closure args) := by
  refine openScope_ends.bind fun scope => ((runAll_ends execs).inScope scope).bind fun _ =>
    takePending_ends.bind fun _ => ?_
  split
  · exact readAt_ends
  · exact .pure _

end

section

variable {most k : Nat} {enough : Prop} {exec : Stmt → Eval Unit}

/-- What is known of what a call runs. -/
def Callable.Brief (most : Nat) : Callable → Prop := Callable.Holds (·.decl.Brief most) (·.decl.Brief most)

private theorem invoke_ends (ctx : Context) (brief : Callable.Brief most callable)
    (execs : ∀ stmt : Stmt, stmt.loops = false → sizeOf stmt ≤ most →
      Ends (FunctionDecl.Brief most) k enough (exec stmt)) (args : List Value) :
    Ends (FunctionDecl.Brief most) k enough (invoke ctx exec callable args) := by
  have calls : ∀ closure : Closure, closure.decl.Brief most →
      Ends (FunctionDecl.Brief most) k enough (callClosure exec closure args) := fun closure brief =>
    callClosure_ends (fun stmt member => execs stmt (brief stmt member).1 (brief stmt member).2) args
  cases callable with
  | clock => exact readClock_ends
  | function closure => exact calls closure brief
  | construct c initializer =>
    cases initializer with
    | none => exact newInstance_ends.bind fun _ => .pure _
    | some initializer =>
      refine newInstance_ends.bind fun _ => bindMethod_ends fun bound same => ?_
      exact (calls bound (same ▸ brief)).bind fun _ => .pure _

/-- A call goes one level deeper, and only below the limit. -/
theorem callValue_ends {ctx : Context} (limited : ctx.limit = some limit)
    (execs : k < limit → ∀ stmt : Stmt, stmt.loops = false → sizeOf stmt ≤ most →
      Ends (FunctionDecl.Brief most) (k + 1) enough (exec stmt)) (callee : Value) (args : List Value) (line : Nat) :
    Ends (FunctionDecl.Brief most) k enough (callValue ctx exec callee args line) := by
  intro s holds depth
  simp only [callValue]
  split
  · exact .fault holds _ _
  · rename_i called
    split
    · exact .fault holds _ _
    · split
      · exact .fault holds _ _
      · rename_i free
        have below : k < limit := by
          simpa [limitReached, limited, depth] using free
        exact (invoke_ends ctx (callable?_holds holds.function holds.method called) (execs below) args).nested s holds depth

end

/-! Expressions and statements. -/

section

variable {ctx : Context} {limit most k : Nat} (limited : ctx.limit = some limit) {enough : Prop}
  {eval : Expr → Eval Value} {exec : Stmt → Eval Unit}

include limited in
private theorem evalStep_ends (e : Expr)
    (evals : ∀ part : Expr, sizeOf part < sizeOf e → Ends (FunctionDecl.Brief most) k enough (eval part))
    (execs : k < limit → ∀ stmt : Stmt, stmt.loops = false → sizeOf stmt ≤ most →
      Ends (FunctionDecl.Brief most) (k + 1) enough (exec stmt)) :
    Ends (FunctionDecl.Brief most) k enough (evalStep ctx eval exec e) := by
  cases e with
  | literal value => exact .pure _
  | group inner => exact evals inner (by simp)
  | unary op line operand => exact (evals operand (by simp +arith)).bind fun _ => applyUnary_ends
  | binary op line left right =>
    exact (evals left (by simp +arith)).bind fun _ => (evals right (by simp +arith)).bind fun _ => applyBinary_ends
  | logical op left right =>
    refine (evals left (by simp +arith)).bind fun a => ?_
    split
    · exact .pure _
    · exact evals right (by simp +arith)
  | use ref => exact readVariable_ends
  | assign ref e =>
    exact (evals e (by simp +arith)).bind fun _ => assignVariable_ends.bind fun _ => .pure _
  | call callee arguments line =>
    refine (evals callee (by simp +arith)).bind fun f => ?_
    have parts : ∀ e ∈ arguments, sizeOf e < sizeOf (Expr.call callee arguments line) := by
      intro e member
      have part := List.sizeOf_lt_of_mem member
      simp only [Expr.call.sizeOf_spec]
      omega
    exact (evalAll_ends fun e member => evals e (parts e member)).bind fun args =>
      callValue_ends limited execs f args line
  | get object name => exact (evals object (by simp +arith)).bind fun _ => getProperty_ends
  | set object name e =>
    refine (evals object (by simp +arith)).bind fun found => ?_
    split
    · exact (evals e (by simp +arith)).bind fun _ => setField_ends.bind fun _ => .pure _
    · exact .fault _ _
  | self node line => exact readVariable_ends
  | superMethod node line method => exact superMethod_ends

private theorem execStep_ends {stmt : Stmt} (free : stmt.loops = false) (small : sizeOf stmt ≤ most)
    (evals : ∀ part : Expr, sizeOf part < sizeOf stmt → Ends (FunctionDecl.Brief most) k enough (eval part))
    (execs : ∀ part : Stmt, part.loops = false → sizeOf part < sizeOf stmt →
      Ends (FunctionDecl.Brief most) k enough (exec part)) :
    Ends (FunctionDecl.Brief most) k enough (execStep ctx eval exec stmt) := by
  cases stmt with
  | expression e => exact (evals e (by simp)).bind fun _ => .pure _
  | print e => exact (evals e (by simp)).bind fun _ => printValue_ends
  | declare name init =>
    cases init with
    | none => exact define_ends
    | some e => exact (evals e (by simp +arith)).bind fun _ => define_ends
  | block body =>
    have parts : ∀ stmt ∈ body, sizeOf stmt < sizeOf (Stmt.block body) := by
      intro stmt member
      have part := List.sizeOf_lt_of_mem member
      simp only [Stmt.block.sizeOf_spec]
      omega
    refine currentScope_ends.bind fun _ => openScope_ends.bind fun scope => Ends.inScope ?_ scope
    exact runAll_ends fun stmt member => execs stmt (Stmt.loops_of_mem free member) (parts stmt member)
  | branch condition thenBranch elseBranch =>
    refine (evals condition (by simp +arith)).bind fun value => ?_
    cases elseBranch with
    | none =>
      split
      · exact execs thenBranch free (by simp +arith)
      · exact .pure _
    | some elseBranch =>
      rw [Stmt.loops, Bool.or_eq_false_iff] at free
      split
      · exact execs thenBranch free.1 (by simp +arith)
      · exact execs elseBranch free.2 (by simp +arith)
  | loop condition body => cases free
  | function decl =>
    have inner : sizeOf decl ≤ most := by
      simp only [Stmt.function.sizeOf_spec] at small
      omega
    have brief : decl.Brief most := FunctionDecl.brief free inner
    exact currentScope_ends.bind fun _ => (newFunction_ends brief).bind fun _ => define_ends
  | ret line value =>
    cases value with
    | none => exact setPending_ends
    | some e => exact (evals e (by simp +arith)).bind fun _ => setPending_ends
  | classDef name superclass methods =>
    refine declareClass_ends ctx name superclass fun decl member => ?_
    have part := List.sizeOf_lt_of_mem member
    simp only [Stmt.classDef.sizeOf_spec] at small
    exact FunctionDecl.brief (FunctionDecl.loops_of_mem free member) (by omega)

end

/-- What evaluation needs for calls that may still be nested at a depth. -/
def reserve (limit most depth : Nat) : Nat := (limit - depth) * most

private theorem reserve_of_lt (below : k < limit) (most : Nat) :
    reserve limit most k = reserve limit most (k + 1) + most := by
  have split : limit - k = limit - (k + 1) + 1 := by omega
  rw [reserve, reserve, split, Nat.succ_mul]

private theorem evaluation_ends {ctx : Context} (limited : ctx.limit = some limit) (most n : Nat) :
    (∀ k e, Ends (FunctionDecl.Brief most) k (reserve limit most k + sizeOf e ≤ n) (evalExpr ctx n e)) ∧
      ∀ k (stmt : Stmt), stmt.loops = false → sizeOf stmt ≤ most →
        Ends (FunctionDecl.Brief most) k (reserve limit most k + sizeOf stmt ≤ n) (execStmt ctx n stmt) := by
  induction n with
  | zero =>
    constructor
    · intro k e s holds _
      have positive : 0 < sizeOf e := by cases e <;> simp +arith
      exact .stopped holds fun _ enough => by omega
    · intro k stmt _ _ s holds _
      have positive : 0 < sizeOf stmt := by cases stmt <;> simp +arith
      exact .stopped holds fun _ enough => by omega
  | succ n ih =>
    obtain ⟨evals, execs⟩ := ih
    constructor
    · intro k e
      have positive : 0 < sizeOf e := by cases e <;> simp +arith
      apply evalStep_ends limited e
      · intro part smaller
        exact (evals k part).imp fun enough => by omega
      · intro below stmt free small
        -- a call is one deeper, so its body is paid for by a share of the reserve, not by the size of `e`
        have reserved := reserve_of_lt below most
        exact (execs (k + 1) stmt free small).imp fun enough => by omega
    · intro k stmt free small
      apply execStep_ends free small
      · intro part smaller
        exact (evals k part).imp fun enough => by omega
      · intro part free smaller
        exact (execs k part free (by omega)).imp fun enough => by omega

/-- A program without loops needs no more than a known bound. -/
theorem execProgram_ends {ctx : Context} (limited : ctx.limit = some limit) {stmts : List Stmt}
    (free : ∀ stmt ∈ stmts, stmt.loops = false ∧ sizeOf stmt ≤ most) (bound : Nat) :
    Ends (FunctionDecl.Brief most) 0 (reserve limit most 0 + most ≤ bound) (execProgram ctx bound stmts) := by
  induction stmts with
  | nil => exact .pure _
  | cons stmt rest ih =>
    obtain ⟨here, small⟩ := free stmt List.mem_cons_self
    have first : Ends (FunctionDecl.Brief most) 0 (reserve limit most 0 + most ≤ bound) (execStmt ctx bound stmt) :=
      ((evaluation_ends limited most bound).2 0 stmt here small).imp fun enough => by omega
    exact first.bind fun _ => ih fun other later => free other (List.mem_cons_of_mem _ later)

end Evaluation
end Lox
