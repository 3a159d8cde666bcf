import Lox.Proofs.Evaluation.Likeness

/-! Alike programs run alike. Step by step both sides print the same, find the same values and stop in
the same way, and a run that ends normally is back in its scope and at its depth. The one difference
that code can make is where a fault is reported; and only an assignment to a variable that is not
bound yet can break an assumption of resolution, in both runs or in neither. -/
namespace Lox.Likeness
open Evaluation

/-- What is left when evaluation stops: alike heaps and the same output. The other side may have
printed something `before`. -/
structure Settled (p : Pairing) (before : List Text) (ν : List Renaming) (s s' : State) : Prop where
  heap : HeapAlike p ν s.heap s'.heap
  output : s'.output.toList = before ++ s.output.toList
  readings : s'.readings = s.readings

structure StateAlike (p : Pairing) (before : List Text) (ν : List Renaming) (s s' : State) : Prop
    extends Settled p before ν s s' where
  scope : s'.scope = s.scope
  depth : s'.depth = s.depth
  pending : s'.pending = s.pending

/-- Later states, back in the same scope and at the same depth. -/
structure Reached (p : Pairing) (before : List Text) (ν : List Renaming) (s : State)
    (μ : List Renaming) (t t' : State) : Prop where
  grows : Grows s.heap ν t.heap μ
  alike : StateAlike p before μ t t'
  scope : t.scope = s.scope
  depth : t.depth = s.depth

private theorem Reached.refl (alike : StateAlike p before ν s s') : Reached p before ν s ν s s' :=
  ⟨.refl, alike, rfl, rfl⟩

private theorem Reached.trans (first : Reached p before ν s μ t t') (second : Reached p before μ t κ u u') :
    Reached p before ν s κ u u' :=
  ⟨first.grows.trans second.grows, second.alike, second.scope.trans first.scope,
    second.depth.trans first.depth⟩

/-- Both sides end normally with the same value, such that `post` holds, or stop in the same way. -/
inductive Sim (p : Pairing) (before : List Text) (ν : List Renaming) (s : State)
    (post : List Renaming → α → State → Prop) :
    EStateM.Result Stop State α → EStateM.Result Stop State α → Prop where
  | ok (reached : Reached p before ν s μ t t') (holds : post μ a t) :
      Sim p before ν s post (.ok a t) (.ok a t')
  | fault (settled : Settled p before μ t t') (cause : f'.cause = f.cause)
      (blames : p.blames f.blamed f'.blamed) :
      Sim p before ν s post (.error (.fault f) t) (.error (.fault f') t')
  | breach (lax : ¬ p.strict) (settled : Settled p before μ t t') :
      Sim p before ν s post (.error (.breach b) t) (.error (.breach b) t')
  | exhausted (settled : Settled p before μ t t') :
      Sim p before ν s post (.error .exhausted t) (.error .exhausted t')

/-- What follows later states. -/
theorem Sim.after (reached : Reached p before ν s μ t t') (sim : Sim p before μ t post r r') :
    Sim p before ν s post r r' := by
  cases sim with
  | ok later holds => exact .ok (reached.trans later) holds
  | fault settled cause blames => exact .fault settled cause blames
  | breach lax settled => exact .breach lax settled
  | exhausted settled => exact .exhausted settled

private theorem Sim.bind {f f' : α → Eval β} (first : Sim p before ν s mid (m s) (m' s'))
    (next : ∀ {μ a t t'}, Reached p before ν s μ t t' → mid μ a t →
      Sim p before μ t post (f a t) (f' a t')) :
    Sim p before ν s post ((m >>= f) s) ((m' >>= f') s') := by
  simp only [Bind.bind, EStateM.bind]
  generalize m s = r at first
  generalize m' s' = r' at first
  cases first with
  | ok reached holds => exact (next reached holds).after reached
  | fault settled cause blames => exact .fault settled cause blames
  | breach lax settled => exact .breach lax settled
  | exhausted settled => exact .exhausted settled

private theorem Sim.imp (weaker : ∀ {μ a t t'}, Reached p before ν s μ t t' → mid μ a t → post μ a t)
    (sim : Sim p before ν s mid r r') : Sim p before ν s post r r' := by
  cases sim with
  | ok reached holds => exact .ok reached (weaker reached holds)
  | fault settled cause blames => exact .fault settled cause blames
  | breach lax settled => exact .breach lax settled
  | exhausted settled => exact .exhausted settled

/-- Evaluation at a place with the given layers, with no return pending. -/
structure At (p : Pairing) (before : List Text) (ν : List Renaming) (Γ : Layers) (s s' : State) : Prop where
  alike : StateAlike p before ν s s'
  chain : Chain s.heap ν s.scope Γ
  idle : s.pending = none

private theorem At.next (here : At p before ν Γ s s') (reached : Reached p before ν s μ t t')
    (idle : t.pending = none) : At p before μ Γ t t' :=
  ⟨reached.alike, reached.scope ▸ here.chain.grow reached.grows, idle⟩

/-- No return is pending. -/
def Idle (_ : List Renaming) (_ : α) (t : State) : Prop := t.pending = none

/-- A return is pending, which takes a function, or the code that follows is in the given layers. -/
def Passed (inside : Bool) (Γ : Layers) (μ : List Renaming) (_ : Unit) (t : State) : Prop :=
  (inside = false → t.pending = none) ∧ (t.pending = none → Chain t.heap μ t.scope Γ)

/-- Expressions have alike values. -/
def EvalAlike (p : Pairing) (before : List Text) (eval eval' : Expr → Eval Value) : Prop :=
  ∀ {inside Γ e e' ν s s'}, Alike p inside Γ (.expr e) (.expr e') → At p before ν Γ s s' →
    Sim p before ν s Idle (eval e s) (eval' e' s')

/-- Statements have alike effects. -/
def ExecAlike (p : Pairing) (before : List Text) (exec exec' : Stmt → Eval Unit) : Prop :=
  ∀ {inside Γ c c' ν s s'}, Alike p inside Γ (.stmt c) (.stmt c') → At p before ν Γ s s' →
    Sim p before ν s (Passed inside (Γ.after c)) (exec c s) (exec' c' s')

private theorem Sim.pure (here : At p before ν Γ s s') (value : α) :
    Sim p before ν s Idle ((Pure.pure value : Eval α) s) ((Pure.pure value : Eval α) s') :=
  .ok (.refl here.alike) here.idle

private theorem Sim.faulty {post : List Renaming → α → State → Prop} (here : At p before ν Γ s s')
    {n n' : Ident} (blames : p.blames n n') :
    Sim p before ν s post (Evaluation.fault cause n s) (Evaluation.fault cause n' s') :=
  .fault here.alike.toSettled rfl blames

section
variable {limit : Option Nat} {clock : Nat → Float}

/-! Variables. -/

private theorem readAt_sim (here : At p before ν Γ s s') (chain : Chain s.heap ν k Δ) (layer : Δ[d]? = some l)
    (binds : l.Binds name) :
    Sim p before ν s Idle (readAt k d name s) (readAt k d (l.spelling name) s') := by
  obtain ⟨_, value, _, read, read'⟩ := here.alike.heap.getAt chain layer binds
  simp only [readAt, read, read']
  exact .ok (.refl here.alike) here.idle

private theorem readVariable_sim (here : At p before ν Γ s s') {n n' : Ident}
    (refers : Refers p Γ True i n.text j n'.text) (blames : p.blames n n') :
    Sim p before ν s Idle (readVariable ⟨p.left, limit, clock⟩ i n s)
      (readVariable ⟨p.right, limit, clock⟩ j n' s') := by
  obtain ⟨text, line⟩ := n
  obtain ⟨text', line'⟩ := n'
  simp only at refers
  cases refers with
  | global ids left right =>
    simp only [readVariable, left, right, here.alike.heap.get?_globals]
    cases s.heap.get? Heap.globals text with
    | none => exact .faulty here blames
    | some value => exact .ok (.refl here.alike) here.idle
  | inScope ids left right layer bound =>
    simp only [readVariable, left, right, here.alike.scope]
    exact readAt_sim here here.chain layer (bound trivial)

/-- Binding a name in a scope, under its other name on the other side. -/
theorem defineIn_sim (here : At p before ν Γ s s') (renamed : ν[k]? = some ρ) (ordinary : Ordinary name)
    (value : Value) : Sim p before ν s Idle (defineIn k name value s) (defineIn k (ρ name) value s') := by
  obtain ⟨grows, heap⟩ := here.alike.heap.define renamed ordinary value
  exact .ok ⟨grows, { here.alike with heap := heap }, rfl, rfl⟩ here.idle

private theorem define_sim (here : At p before ν Γ s s') {n n' : Text} (spelled : n' = Γ.spelling n)
    (ordinary : Ordinary n) (value : Value) :
    Sim p before ν s (Passed inside (Γ.enter n)) (define n value s) (define n' value s') := by
  subst spelled
  obtain ⟨grows, heap⟩ := here.alike.heap.define (here.alike.heap.spelling here.chain) ordinary value
  have chain := here.alike.heap.chain_define here.chain value grows
  simp only [define, here.alike.scope]
  exact .ok ⟨grows, { here.alike with heap := heap }, rfl, rfl⟩ ⟨fun _ => here.idle, fun _ => chain⟩

private theorem assignVariable_sim (here : At p before ν Γ s s') {r r' : Reference}
    (refers : Refers p Γ p.strict r.id r.name.text r'.id r'.name.text) (ordinary : Ordinary r.name.text)
    (blames : p.blames r.name r'.name) (value : Value) :
    Sim p before ν s Idle (assignVariable ⟨p.left, limit, clock⟩ r value s)
      (assignVariable ⟨p.right, limit, clock⟩ r' value s') := by
  obtain ⟨i, text, line⟩ := r
  obtain ⟨j, text', line'⟩ := r'
  simp only at refers
  cases refers with
  | global ids left right =>
    simp only [assignVariable, left, right, here.alike.heap.owner?_globals]
    cases owner : s.heap.owner? Heap.globals text with
    | none => exact .faulty here blames
    | some target =>
      rw [Heap.owner?_globals owner]
      exact defineIn_sim here here.alike.heap.root ordinary value
  | inScope ids left right layer bound =>
    simp only [assignVariable, left, right, here.alike.scope]
    rcases here.alike.heap.slotAt here.chain layer text with
      ⟨none, none', unbound⟩ | ⟨target, _, slot, slot', renamed, _⟩
    · simp only [none, none']
      exact .breach (fun strict => unbound (bound strict)) here.alike.toSettled
    · simp only [slot, slot']
      exact defineIn_sim here renamed ordinary value

/-! Scopes, functions and instances. -/

private theorem openScope_sim (here : At p before ν Γ s s') (chain : Chain s.heap ν up Δ) (layer : Layer)
    (bindings : Table Value) (bound : ∀ name, layer.Binds name → bindings.contains name = true)
    (this : ∀ v, bindings.find? Names.this = some v → ∃ o, v = .object o)
    (super : ∀ v, bindings.find? Names.super = some v → ∃ c, v = .cls c) :
    Sim p before ν s
      (fun μ k t => t.pending = none ∧ Chain t.heap μ k (layer :: Δ) ∧ (t.heap.scope k).parent = some up)
      (openScope up bindings s) (openScope up (bindings.renamed layer.spelling) s') := by
  have alike := here.alike.heap
  obtain ⟨grows, heap⟩ := alike.newScope layer.spelling up bindings this super
  have inner := alike.chain_newScope chain layer grows bound
  have sizes : s'.heap.scopes.size = s.heap.scopes.size := alike.size'.trans alike.size.symm
  have parent : ((s.heap.newScope (some up) bindings).2.scope s.heap.scopes.size).parent = some up := by
    rw [Heap.scope_newScope, if_pos rfl]
  simp only [openScope, Heap.newScope, sizes] at heap inner grows parent ⊢
  exact .ok ⟨grows, { here.alike with heap := heap }, rfl, rfl⟩ ⟨here.idle, inner, parent⟩

private theorem newFunction_sim (here : At p before ν Γ s s') (code : CodeAlike p s.heap ν [] c c') :
    Sim p before ν s Idle (newFunction c s) (newFunction c' s') := by
  have heap := here.alike.heap.newFunction code
  simp only [newFunction, Heap.newFunction, here.alike.heap.functionCount] at heap ⊢
  exact .ok ⟨.of_scopes rfl, { here.alike with heap := heap }, rfl, rfl⟩ here.idle

/-- A method bound to an instance lies in a scope that binds `this`. -/
theorem bindMethod_sim {f f' : Closure → Eval α} (here : At p before ν Γ s s')
    (code : CodeAlike p s.heap ν [thisLayer] m m') (o : InstanceId)
    (next : ∀ {μ c c' t t'}, c.decl = m.decl → CodeAlike p t.heap μ [] c c' → At p before μ Γ t t' →
      Sim p before μ t post (f c t) (f' c' t')) :
    Sim p before ν s post ((bindMethod m o >>= f) s) ((bindMethod m' o >>= f') s') := by
  obtain ⟨Δ, chain, alike, this⟩ := code.code
  obtain ⟨grows, heap⟩ := here.alike.heap.newScope .same m.scope [(Names.this, .object o)]
    (fun v found => by
      rw [Table.find?_single, if_pos rfl, Option.some.injEq] at found
      exact ⟨o, found.symm⟩)
    (fun v found => by
      rw [Table.find?_single, if_neg (by decide)] at found
      cases found)
  have inner := here.alike.heap.chain_newScope chain thisLayer grows fun name binds => by
    rw [Table.contains, Table.find?_single, if_pos (thisLayer_binds.1 binds)]
    rfl
  have sizes : s'.heap.scopes.size = s.heap.scopes.size :=
    here.alike.heap.size'.trans here.alike.heap.size.symm
  have reached : Reached p before ν s (ν ++ [.same]) { s with heap := (s.heap.bind m o).2 }
      { s' with heap := (s'.heap.bind m' o).2 } := by
    refine ⟨grows, { here.alike with heap := ?_ }, rfl, rfl⟩
    show HeapAlike p _ _ (s'.heap.newScope (some m'.scope) _).2
    rw [code.scope]
    exact heap
  have bound : CodeAlike p (s.heap.bind m o).2 (ν ++ [.same]) [] (s.heap.bind m o).1
      (s'.heap.bind m' o).1 := ⟨sizes, code.kind, _, inner, alike, this⟩
  have rest := next (c := (s.heap.bind m o).1) rfl bound (here.next reached here.idle)
  exact rest.after reached

/-- The method is a new function on both sides. -/
theorem boundMethod_sim (here : At p before ν Γ s s') (code : CodeAlike p s.heap ν [thisLayer] m m')
    (o : InstanceId) : Sim p before ν s Idle (boundMethod m o s) (boundMethod m' o s') :=
  bindMethod_sim here code o fun _ bound there => newFunction_sim there bound

private theorem newInstance_sim (here : At p before ν Γ s s') (c : ClassId) :
    Sim p before ν s Idle (newInstance c s) (newInstance c s') := by
  have heap := here.alike.heap.withInstances (s.heap.instances.push ⟨c, []⟩)
  simp only [newInstance, Heap.newInstance, here.alike.heap.instances]
  exact .ok ⟨.of_scopes rfl, { here.alike with heap := heap }, rfl, rfl⟩ here.idle

private theorem setField_sim (here : At p before ν Γ s s') (o : InstanceId) (name : Text) (value : Value) :
    Sim p before ν s Idle (setField o name value s) (setField o name value s') := by
  have heap := here.alike.heap.withInstances (s.heap.setField o name value).instances
  simp only [setField, Heap.setField, here.alike.heap.instances]
  exact .ok ⟨.of_scopes rfl, { here.alike with heap := heap }, rfl, rfl⟩ here.idle

private theorem getProperty_sim (here : At p before ν Γ s s') (same : SameName p n n') (value : Value) :
    Sim p before ν s Idle (getProperty n value s) (getProperty n' value s') := by
  cases value with
  | object o =>
    unfold getProperty
    simp only [here.alike.heap.object, same.text]
    cases (s.heap.object o).fields.find? n.text with
    | some value => exact .ok (.refl here.alike) here.idle
    | none =>
      rcases here.alike.heap.method? (s.heap.object o).cls n.text with
        ⟨none, none'⟩ | ⟨m, m', some, some', code⟩
      · simp only [none, none']
        exact .faulty here same.blames
      · simp only [some, some']
        exact boundMethod_sim here code o
  | _ => exact .faulty here same.blames

/-- What `super` and `this` name is found where resolution says, a class and an instance. -/
theorem superMethod_sim (here : At p before ν Γ s s') (left : p.left[i]? = some (d + 1))
    (right : p.right[j]? = some (d + 1)) (outer : Γ[d + 1]? = some home) (super : home.Binds Names.super)
    (inner : Γ[d]? = some own) (this : own.Binds Names.this) (same : SameName p n n') :
    Sim p before ν s Idle (superMethod ⟨p.left, limit, clock⟩ i n s)
      (superMethod ⟨p.right, limit, clock⟩ j n' s') := by
  have alike := here.alike.heap
  obtain ⟨k, value, found, read, read'⟩ := alike.getAt here.chain outer super
  obtain ⟨c, rfl⟩ := alike.super found
  obtain ⟨k', value', found', receiver, receiver'⟩ := alike.getAt here.chain inner this
  obtain ⟨o, rfl⟩ := alike.this found'
  rw [home.spelling.super] at read'
  rw [own.spelling.this] at receiver'
  simp only [superMethod, left, right, here.alike.scope, read, read', Nat.add_sub_cancel, receiver,
    receiver', same.text]
  rcases alike.method? c n.text with ⟨none, none'⟩ | ⟨m, m', some, some', code⟩
  · simp only [none, none']
    exact .faulty here same.blames
  · simp only [some, some']
    exact boundMethod_sim here code o

/-! Sequences, blocks and calls. -/

/-- Statements after one another. Those after a pending return are not run. -/
theorem runAll_sim (execs : ExecAlike p before exec exec') {ss ss' : List Stmt}
    (alike : Alike p inside Γ (.stmts ss) (.stmts ss')) (here : At p before ν Γ s s') :
    Sim p before ν s (fun _ _ t => inside = false → t.pending = none) (runAll exec ss s)
      (runAll exec' ss' s') := by
  induction ss generalizing ss' Γ ν s s' with
  | nil =>
    cases alike
    exact .ok (.refl here.alike) fun _ => here.idle
  | cons c rest ih =>
    cases alike with
    | moreStmts first others =>
      refine (execs first here).bind fun {μ _ t t'} reached passed => ?_
      simp only [reached.alike.pending]
      cases pending : t.pending with
      | none => exact ih others ⟨reached.alike, passed.2 pending, pending⟩
      | some value => exact .ok (.refl reached.alike) fun outside => passed.1 outside

/-- Code that runs in another scope comes back to the current one. -/
theorem inScope_sim (scope : s'.scope = s.scope)
    (body : Sim p before ν { s with scope := k } post (m { s with scope := k }) (m' { s' with scope := k })) :
    Sim p before ν s (fun μ a t => post μ a { t with scope := k }) (inScope k m s) (inScope k m' s') := by
  unfold inScope
  generalize m { s with scope := k } = r at body
  generalize m' { s' with scope := k } = r' at body
  cases body with
  | @ok μ t t' _ reached holds =>
    have same : t.scope = k := reached.scope
    have back : { t with scope := k } = t := by rw [← same]
    refine .ok ⟨reached.grows, { reached.alike with scope := scope }, rfl, reached.depth⟩ ?_
    show post μ () { t with scope := k }
    rw [back]
    exact holds
  | fault settled cause blames => exact .fault settled cause blames
  | breach lax settled => exact .breach lax settled
  | exhausted settled => exact .exhausted settled

/-- Arguments under the other names of their parameters. -/
theorem bindParams_renamed {ρ : Renaming} {ps ps' : List Ident}
    (params : ps'.map (·.text) = ps.map fun q => ρ q.text) (args : List Value) :
    bindParams ps' args = (bindParams ps args).renamed ρ := by
  suffices step : ∀ table : Table Value,
      (ps'.zip args).foldl (fun t pair => t.insert pair.1.text pair.2) (table.renamed ρ) =
        ((ps.zip args).foldl (fun t pair => t.insert pair.1.text pair.2) table).renamed ρ from step []
  induction ps generalizing ps' args with
  | nil =>
    cases List.map_eq_nil_iff.1 params
    exact fun _ => rfl
  | cons q rest ih =>
    cases ps' with
    | nil => cases params
    | cons q' rest' =>
      obtain ⟨first, others⟩ := List.cons.inj params
      cases args with
      | nil => exact fun _ => rfl
      | cons v args =>
        intro table
        simp only [List.zip_cons_cons, List.foldl_cons, first]
        rw [← Table.renamed_insert ρ.injective]
        exact ih others args _

/-- With as many arguments as parameters each parameter is bound, and nothing else. -/
theorem bindParams_contains {ps : List Ident} {args : List Value} (enough : args.length = ps.length)
    (name : Text) : (bindParams ps args).contains name = decide (name ∈ ps.map (·.text)) := by
  suffices step : ∀ table : Table Value,
      ((ps.zip args).foldl (fun t pair => t.insert pair.1.text pair.2) table).contains name =
        (decide (name ∈ ps.map (·.text)) || table.contains name) by
    have all := step []
    rwa [Table.contains_nil, Bool.or_false] at all
  induction ps generalizing args with
  | nil => simp
  | cons q rest ih =>
    cases args with
    | nil => cases enough
    | cons v args =>
      intro table
      rw [List.zip_cons_cons, List.foldl_cons, ih (Nat.succ.inj enough), Table.contains_insert]
      by_cases here : q.text = name
      · simp [here]
      · have apart : ¬ name = q.text := fun same => here same.symm
        simp [here, apart]

/-- No parameter is a word of the language. -/
theorem bindParams_word {ps : List Ident} {args : List Value} (enough : args.length = ps.length)
    (ordinary : ∀ q ∈ ps, Ordinary q.text) (found : (bindParams ps args).find? name = some v) :
    Ordinary name := by
  have bound := Table.contains_eq_true.2 ⟨v, found⟩
  rw [bindParams_contains enough, decide_eq_true_iff] at bound
  obtain ⟨q, member, rfl⟩ := List.mem_map.1 bound
  exact ordinary q member

private theorem takePending_sim (reached : Reached p before ν s μ t t') :
    Sim p before ν s Idle (takePending t) (takePending t') := by
  simp only [takePending, reached.alike.pending]
  exact .ok ⟨reached.grows, { reached.alike with pending := rfl }, reached.scope, reached.depth⟩ rfl

/-- Calls of alike functions with the same arguments. -/
theorem callClosure_sim (execs : ExecAlike p before exec exec') (here : At p before ν Γ s s')
    (code : CodeAlike p s.heap ν [] c c') (enough : args.length = c.decl.params.length) :
    Sim p before ν s Idle (callClosure exec c args s) (callClosure exec' c' args s') := by
  obtain ⟨Δ, chain, alike, this⟩ := code.code
  obtain ⟨ρ, params, ordinary, body⟩ := alike.parts
  have opened := openScope_sim here chain ⟨ρ, paramScope c.decl.params⟩ (bindParams c.decl.params args)
    (fun name binds => by
      rw [Layer.Binds, find?_paramScope] at binds
      rw [bindParams_contains enough]
      split at binds
      · rename_i member
        exact decide_eq_true member
      · cases binds)
    (fun v found => absurd rfl (bindParams_word enough ordinary found).1)
    (fun v found => absurd rfl (bindParams_word enough ordinary found).2)
  unfold callClosure
  simp only [bindParams_renamed params args, code.scope, code.kind]
  refine opened.bind fun {μ k t t'} reached inner => ?_
  have start : At p before μ (⟨ρ, paramScope c.decl.params⟩ :: Δ) { t with scope := k }
      { t' with scope := k } := ⟨{ reached.alike with scope := rfl }, inner.2.1, inner.1⟩
  refine (inScope_sim reached.alike.scope (runAll_sim execs body start)).bind fun later _ => ?_
  refine (takePending_sim (.refl later.alike)).bind fun {κ value u u'} taken idle => ?_
  cases initializer : c.isInitializer with
  | false => exact .ok (.refl taken.alike) idle
  | true =>
    obtain ⟨top, first, binds⟩ := this initializer
    have all := reached.trans (later.trans taken)
    have layer : Δ[0]? = some top := List.head?_eq_getElem? ▸ first
    have read := readAt_sim (here.next all idle) (chain.grow all.grows) layer binds
    rw [top.spelling.this] at read
    exact read

/-- What is called on both sides. -/
inductive CallableAlike (p : Pairing) (h : Heap) (ν : List Renaming) : Callable → Callable → Prop where
  | clock : CallableAlike p h ν .clock .clock
  | function (code : CodeAlike p h ν [] c c') : CallableAlike p h ν (.function c) (.function c')
  | plain : CallableAlike p h ν (.construct k none) (.construct k none)
  | initialized (code : CodeAlike p h ν [thisLayer] c c') :
      CallableAlike p h ν (.construct k (some c)) (.construct k (some c'))

private theorem callable?_alike (alike : HeapAlike p ν h h') (value : Value) :
    callable? h value = none ∧ callable? h' value = none ∨
      ∃ c c', callable? h value = some c ∧ callable? h' value = some c' ∧ CallableAlike p h ν c c' := by
  cases value with
  | clock => exact .inr ⟨_, _, rfl, rfl, .clock⟩
  | function id => exact .inr ⟨_, _, rfl, rfl, .function (alike.functions id)⟩
  | cls id =>
    simp only [callable?]
    rcases alike.method? id Names.initializer with ⟨none, none'⟩ | ⟨m, m', some, some', code⟩
    · rw [none, none']
      exact .inr ⟨_, _, rfl, rfl, .plain⟩
    · rw [some, some']
      exact .inr ⟨_, _, rfl, rfl, .initialized code⟩
  | _ => exact .inl ⟨rfl, rfl⟩

private theorem CodeAlike.arity (code : CodeAlike p h ν extra c c') :
    c'.decl.params.length = c.decl.params.length := by
  obtain ⟨_, _, alike, _⟩ := code.code
  obtain ⟨ρ, params, _⟩ := alike.parts
  simpa using congrArg List.length params

private theorem CallableAlike.arity (alike : CallableAlike p h ν c c') : c'.arity = c.arity := by
  cases alike with
  | clock | plain => rfl
  | function code | initialized code => exact code.arity

private theorem invoke_sim (execs : ExecAlike p before exec exec') (here : At p before ν Γ s s')
    (alike : CallableAlike p s.heap ν c c') (enough : args.length = c.arity) :
    Sim p before ν s Idle (invoke ⟨p.left, limit, clock⟩ exec c args s)
      (invoke ⟨p.right, limit, clock⟩ exec' c' args s') := by
  cases alike with
  | clock =>
    simp only [invoke, readClock, here.alike.readings]
    exact .ok ⟨.refl, { here.alike with readings := rfl }, rfl, rfl⟩ here.idle
  | function code => exact callClosure_sim execs here code enough
  | @plain k => exact (newInstance_sim here k).bind fun reached idle => .pure (here.next reached idle) _
  | @initialized c c' k code =>
    refine (newInstance_sim here k).bind fun {μ o t t'} made idle => ?_
    refine bindMethod_sim (here.next made idle) (code.grow made.grows) o fun {_ d d' _ _} same bound there => ?_
    have fits : args.length = d.decl.params.length := same ▸ enough
    exact (callClosure_sim execs there bound fits).bind fun reached idle => .pure (there.next reached idle) _

/-- Calls one level deeper come back to the current depth. -/
theorem nested_sim
    (body : Sim p before ν { s with depth := s.depth + 1 } Idle (m { s with depth := s.depth + 1 })
      (m' { s' with depth := s'.depth + 1 })) :
    Sim p before ν s Idle (nested m s) (nested m' s') := by
  unfold nested
  generalize m { s with depth := s.depth + 1 } = r at body
  generalize m' { s' with depth := s'.depth + 1 } = r' at body
  cases body with
  | @ok μ t t' a reached idle =>
    have deeper : t.depth = s.depth + 1 := reached.depth
    refine .ok ⟨reached.grows, { reached.alike with depth := ?_ }, reached.scope, ?_⟩ idle
    · simp only [reached.alike.depth]
    · simp only [deeper, Nat.add_sub_cancel]
  | fault settled cause blames => exact .fault settled cause blames
  | breach lax settled => exact .breach lax settled
  | exhausted settled => exact .exhausted settled

private theorem callValue_sim (execs : ExecAlike p before exec exec') (here : At p before ν Γ s s')
    (callee : Value) (args : List Value)
    (blames : p.blames ⟨Text.ofString ")", l⟩ ⟨Text.ofString ")", l'⟩) :
    Sim p before ν s Idle (callValue ⟨p.left, limit, clock⟩ exec callee args l s)
      (callValue ⟨p.right, limit, clock⟩ exec' callee args l' s') := by
  unfold callValue
  rcases callable?_alike here.alike.heap callee with ⟨none, none'⟩ | ⟨c, c', some, some', alike⟩
  · simp only [none, none']
    exact .faulty here blames
  · simp only [some, some', alike.arity, here.alike.depth]
    by_cases enough : args.length = c.arity
    · simp only [enough, ne_eq, not_true_eq_false, if_false]
      by_cases deep : limitReached ⟨p.left, limit, clock⟩ s.depth = true
      · have deep' : limitReached ⟨p.right, limit, clock⟩ s.depth = true := deep
        rw [if_pos deep, if_pos deep']
        exact .faulty here blames
      · have deep' : ¬ limitReached ⟨p.right, limit, clock⟩ s.depth = true := deep
        rw [if_neg deep, if_neg deep']
        have deeper : At p before ν Γ { s with depth := s.depth + 1 } { s' with depth := s'.depth + 1 } :=
          ⟨{ here.alike with depth := by simp only [here.alike.depth] }, here.chain, here.idle⟩
        exact nested_sim (invoke_sim execs deeper alike enough)
    · simp only [enough, ne_eq, not_false_eq_true, if_true]
      exact .faulty here blames

/-! Operators. -/

private theorem applyOperator_sim (here : At p before ν Γ s s') (blames : p.blames ⟨symbol, l⟩ ⟨symbol, l'⟩) :
    Sim p before ν s Idle (applyOperator op symbol l values s) (applyOperator op symbol l' values s') := by
  unfold applyOperator
  cases op.apply values with
  | ok value => exact .pure here value
  | error _ => exact .faulty here blames

private theorem applyUnary_sim (here : At p before ν Γ s s') (blames : p.blames ⟨op.symbol, l⟩ ⟨op.symbol, l'⟩) :
    Sim p before ν s Idle (applyUnary op l value s) (applyUnary op l' value s') := by
  cases op with
  | not => exact .pure here _
  | negate => exact applyOperator_sim here blames

private theorem applyBinary_sim (here : At p before ν Γ s s') (blames : p.blames ⟨op.symbol, l⟩ ⟨op.symbol, l'⟩) :
    Sim p before ν s Idle (applyBinary op l a b s) (applyBinary op l' a b s') := by
  cases op with
  | equal | notEqual => exact .pure here _
  | arithmetic op => exact applyOperator_sim here blames

/-! Expressions. -/

private theorem evalAll_sim (evals : EvalAlike p before eval eval') {es es' : List Expr}
    (alike : Alike p inside Γ (.exprs es) (.exprs es')) (here : At p before ν Γ s s') :
    Sim p before ν s Idle (evalAll eval es s) (evalAll eval' es' s') := by
  induction es generalizing es' ν s s' with
  | nil =>
    cases alike
    exact .pure here _
  | cons e rest ih =>
    cases alike with
    | moreExprs first others =>
      refine (evals first here).bind fun reached idle => ?_
      have there := here.next reached idle
      exact (ih others there).bind fun reached idle => .pure (there.next reached idle) _

private theorem evalStep_sim (evals : EvalAlike p before eval eval') (execs : ExecAlike p before exec exec') :
    EvalAlike p before (evalStep ⟨p.left, limit, clock⟩ eval exec)
      (evalStep ⟨p.right, limit, clock⟩ eval' exec') := by
  intro inside Γ e e' ν s s' alike here
  cases alike with
  | literal => exact .pure here _
  | group inner => exact evals inner here
  | unary blames operand =>
    exact (evals operand here).bind fun reached idle => applyUnary_sim (here.next reached idle) blames
  | binary blames left right =>
    refine (evals left here).bind fun reached idle => ?_
    have there := here.next reached idle
    exact (evals right there).bind fun reached idle => applyBinary_sim (there.next reached idle) blames
  | @logical _ _ _ _ _ _ op left right =>
    refine (evals left here).bind fun {_ a _ _} reached idle => ?_
    have there := here.next reached idle
    cases settles op a with
    | true => exact .pure there _
    | false => exact evals right there
  | use refers blames => exact readVariable_sim here refers blames
  | assign refers ordinary blames value =>
    refine (evals value here).bind fun reached idle => ?_
    have there := here.next reached idle
    exact (assignVariable_sim there refers ordinary blames _).bind fun reached idle =>
      .pure (there.next reached idle) _
  | call callee arguments blames =>
    refine (evals callee here).bind fun reached idle => ?_
    have there := here.next reached idle
    exact (evalAll_sim evals arguments there).bind fun reached idle =>
      callValue_sim execs (there.next reached idle) _ _ blames
  | get object name =>
    exact (evals object here).bind fun reached idle => getProperty_sim (here.next reached idle) name _
  | set object name value =>
    refine (evals object here).bind fun {_ target _ _} reached idle => ?_
    have there := here.next reached idle
    cases target with
    | object o =>
      refine (evals value there).bind fun reached idle => ?_
      have later := there.next reached idle
      simp only [name.text]
      exact (setField_sim later o _ _).bind fun reached idle => .pure (later.next reached idle) _
    | _ => exact .faulty there name.blames
  | self refers blames => exact readVariable_sim here refers blames
  | superMethod ids left right outer super inner this name =>
    exact superMethod_sim here left right outer super inner this name

/-! Statements. -/

private theorem printValue_sim (here : At p before ν Γ s s') (value : Value) :
    Sim p before ν s Idle (printValue value s) (printValue value s') := by
  simp only [printValue, here.alike.heap.text]
  refine .ok ⟨.refl, { here.alike with output := ?_ }, rfl, rfl⟩ here.idle
  simp only [Array.toList_push, here.alike.output, List.append_assoc]

private theorem superclassOf_sim (here : At p before ν Γ s s') {r r' : Reference}
    (parent : Refers p Γ True r.id r.name.text r'.id r'.name.text)
    (blames : p.blames r.name r'.name) :
    Sim p before ν s Idle (superclassOf ⟨p.left, limit, clock⟩ r s)
      (superclassOf ⟨p.right, limit, clock⟩ r' s') := by
  refine (readVariable_sim here parent blames).bind fun {_ value _ _} reached idle => ?_
  have there := here.next reached idle
  cases value with
  | cls c => exact .pure there c
  | _ => exact .faulty there blames

/-- Methods by name, each with the scope of its class. -/
theorem methodTable_alike (chain : Chain h ν home Γ) {ds ds' : List FunctionDecl}
    (alike : Alike p true (thisLayer :: Γ) (.functions ds) (.functions ds')) :
    TableAlike (CodeAlike p h ν [thisLayer]) (methodTable home ds) (methodTable home ds') := by
  suffices step : ∀ t t', TableAlike (CodeAlike p h ν [thisLayer]) t t' →
      TableAlike (CodeAlike p h ν [thisLayer])
        (ds.foldl (fun table decl =>
          table.insert decl.name.text ⟨decl, home, decl.name.text = Names.initializer⟩) t)
        (ds'.foldl (fun table decl =>
          table.insert decl.name.text ⟨decl, home, decl.name.text = Names.initializer⟩) t') from
    step [] [] fun _ => .inl ⟨rfl, rfl⟩
  induction ds generalizing ds' with
  | nil =>
    cases alike
    exact fun _ _ start => start
  | cons d rest ih =>
    cases alike with
    | moreFunctions first others =>
      intro t t' start
      refine ih others _ _ fun name => ?_
      simp only [Table.find?_insert, first.functionName]
      split
      · refine .inr ⟨_, _, rfl, rfl, rfl, rfl, Γ, chain, first, fun _ => ⟨thisLayer, rfl, ?_⟩⟩
        exact thisLayer_binds.2 rfl
      · exact start name

/-- A function or a class can refer to itself: it is made once its name is bound. -/
theorem bindNew_sim (here : At p before ν Γ s s') (kept : Kept Γ n n') {value value' : Value}
    (same : value' = value) (make make' : Heap → Heap) (scopes : ∀ h, (make h).scopes = h.scopes)
    (made : ∀ {h h'}, Grows s.heap ν h ν → Chain h ν s.scope (Γ.enter n.text) → HeapAlike p ν h h' →
      HeapAlike p ν (make h) (make' h')) :
    Sim p before ν s (Passed inside (Γ.enter n.text))
      (.ok () { s with heap := make (s.heap.define s.scope n.text value) })
      (.ok () { s' with heap := make' (s'.heap.define s'.scope n'.text value') }) := by
  have alike := here.alike.heap
  obtain ⟨grows, heap⟩ := alike.define (alike.spelling here.chain) kept.ordinary value
  have chain := alike.chain_define here.chain value grows
  have later : Grows (s.heap.define s.scope n.text value) ν (make (s.heap.define s.scope n.text value)) ν :=
    .of_scopes (scopes _)
  rw [kept.fixed] at heap
  rw [kept.text, same, here.alike.scope]
  exact .ok ⟨grows.trans later, { here.alike with heap := made grows chain heap, scope := rfl }, rfl, rfl⟩
    ⟨fun _ => here.idle, fun _ => chain.grow later⟩

private theorem newFunction_define_sim (here : At p before ν Γ s s') (kept : Kept Γ n n')
    (code : ∀ {g}, Chain g ν s.scope (Γ.enter n.text) → CodeAlike p g ν [] c c') :
    Sim p before ν s (Passed inside (Γ.enter n.text)) ((newFunction c >>= define n.text) s)
      ((newFunction c' >>= define n'.text) s') :=
  bindNew_sim here kept (congrArg Value.function here.alike.heap.functionCount)
    (fun h => (h.newFunction c).2) (fun h => (h.newFunction c').2) (fun _ => rfl)
    fun _ chain heap => heap.newFunction (code chain)

private theorem newClass_define_sim (here : At p before ν Γ s s') (kept : Kept Γ n n')
    (cls : ∀ {g}, Grows s.heap ν g ν → Chain g ν s.scope (Γ.enter n.text) → ClassAlike p g ν c c') :
    Sim p before ν s (Passed inside (Γ.enter n.text)) ((newClass c >>= define n.text) s)
      ((newClass c' >>= define n'.text) s') :=
  bindNew_sim here kept (congrArg Value.cls here.alike.heap.classCount)
    (fun h => (h.newClass c).2) (fun h => (h.newClass c').2) (fun _ => rfl)
    fun grows chain heap => heap.newClass (cls grows chain)

/-- What depends on the current scope. -/
private theorem currentScope_bind (f : ScopeId → Eval α) (s : State) : (currentScope >>= f) s = f s.scope s := rfl

private theorem declareClass_plain_sim (here : At p before ν Γ s s') (kept : Kept Γ n n')
    (methods : Alike p true (thisLayer :: Γ.enter n.text) (.functions ds) (.functions ds')) :
    Sim p before ν s (Passed inside (Γ.enter n.text)) (declareClass ⟨p.left, limit, clock⟩ n none ds s)
      (declareClass ⟨p.right, limit, clock⟩ n' none ds' s') := by
  simp only [declareClass, currentScope_bind, here.alike.scope]
  exact newClass_define_sim here kept fun _ chain => ⟨kept.text, rfl, methodTable_alike chain methods⟩

/-- The methods of a subclass lie in a scope of its own, which binds `super`. -/
theorem declareClass_sub_sim (here : At p before ν Γ s s') (kept : Kept Γ n n')
    (parent : Refers p Γ True r.id r.name.text r'.id r'.name.text)
    (blames : p.blames r.name r'.name)
    (methods : Alike p true (thisLayer :: superLayer :: Γ.enter n.text) (.functions ds) (.functions ds')) :
    Sim p before ν s (Passed inside (Γ.enter n.text))
      (declareClass ⟨p.left, limit, clock⟩ n (some r) ds s)
      (declareClass ⟨p.right, limit, clock⟩ n' (some r') ds' s') := by
  refine (superclassOf_sim here parent blames).bind fun {_ c t t'} reached idle => ?_
  have there := here.next reached idle
  have opened := openScope_sim there there.chain superLayer [(Names.super, .cls c)]
    (fun name binds => by
      rw [Table.contains, Table.find?_single, if_pos (superLayer_binds.1 binds)]
      rfl)
    (fun v found => by
      rw [Table.find?_single, if_neg (by decide)] at found
      cases found)
    (fun v found => by
      rw [Table.find?_single, if_pos rfl, Option.some.injEq] at found
      exact ⟨c, found.symm⟩)
  simp only [declareSubclass, currentScope_bind, there.alike.scope]
  refine opened.bind fun {_ home u u'} later holds => ?_
  obtain ⟨idle, inner, outer⟩ := holds
  have beyond := there.next later idle
  refine newClass_define_sim beyond kept fun grows chain => ⟨kept.text, rfl, ?_⟩
  rw [later.scope] at chain
  exact methodTable_alike (inner.around outer grows chain) methods

private theorem setPending_sim (here : At p before ν Γ s s') (value : Value) :
    Sim p before ν s (Passed true Δ) (setPending value s) (setPending value s') :=
  .ok ⟨.refl, { here.alike with pending := rfl }, rfl, rfl⟩ ⟨nofun, nofun⟩

/-- The layers at the start still hold at the end. -/
theorem At.passed (here : At p before ν Γ s s') (reached : Reached p before ν s μ t t')
    (quiet : inside = false → t.pending = none) : Passed inside Γ μ () t :=
  ⟨quiet, fun _ => reached.scope ▸ here.chain.grow reached.grows⟩

/-- A statement whose declarations, if any, do not matter to what follows. -/
theorem ExecAlike.plain (execs : ExecAlike p before exec exec') (here : At p before ν Γ s s')
    (alike : Alike p inside Γ (.stmt c) (.stmt c')) :
    Sim p before ν s (Passed inside Γ) (exec c s) (exec' c' s') :=
  (execs alike here).imp fun reached passed => here.passed reached passed.1

private theorem Sim.skip (here : At p before ν Γ s s') :
    Sim p before ν s (Passed inside Γ) ((Pure.pure () : Eval Unit) s) ((Pure.pure () : Eval Unit) s') :=
  .ok (.refl here.alike) (here.passed (.refl here.alike) fun _ => here.idle)

private theorem block_sim (execs : ExecAlike p before exec exec') (here : At p before ν Γ s s')
    (body : Alike p inside (⟨ρ, []⟩ :: Γ) (.stmts ss) (.stmts ss')) :
    Sim p before ν s (Passed inside Γ) (execStep ctx eval exec (.block ss) s)
      (execStep ctx' eval' exec' (.block ss') s') := by
  have opened := openScope_sim here here.chain ⟨ρ, []⟩ [] nofun nofun nofun
  simp only [execStep, currentScope_bind, here.alike.scope]
  refine opened.bind fun {μ k t t'} reached ⟨idle, inner, _⟩ => ?_
  have start : At p before μ (⟨ρ, []⟩ :: Γ) { t with scope := k } { t' with scope := k } :=
    ⟨{ reached.alike with scope := rfl }, inner, idle⟩
  have there := here.next reached idle
  exact (inScope_sim reached.alike.scope (runAll_sim execs body start)).imp fun later quiet =>
    there.passed later quiet

private theorem loop_sim (evals : EvalAlike p before eval eval') (execs : ExecAlike p before exec exec')
    (here : At p before ν Γ s s') (condition : Alike p inside Γ (.expr c) (.expr c'))
    (body : Alike p inside Γ (.stmt b) (.stmt b')) :
    Sim p before ν s (Passed inside Γ) (execStep ctx eval exec (.loop c b) s)
      (execStep ctx' eval' exec' (.loop c' b') s') := by
  refine (evals condition here).bind fun {_ value _ _} reached idle => ?_
  have there := here.next reached idle
  cases value.truthy with
  | false => exact .skip there
  | true =>
    refine (execs.plain there body).bind fun {μ _ t t'} later passed => ?_
    show Sim p before μ t _ ((if t.pending.isSome then _ else _ : Eval Unit) t)
      ((if t'.pending.isSome then _ else _ : Eval Unit) t')
    rw [later.alike.pending]
    cases pending : t.pending with
    | some _ => exact .ok (.refl later.alike) passed
    | none => exact execs.plain ⟨later.alike, passed.2 pending, pending⟩ (.loop condition body)

private theorem execStep_sim (evals : EvalAlike p before eval eval') (execs : ExecAlike p before exec exec') :
    ExecAlike p before (execStep ⟨p.left, limit, clock⟩ eval exec)
      (execStep ⟨p.right, limit, clock⟩ eval' exec') := by
  intro inside Γ c c' ν s s' alike here
  cases alike with
  | expression inner =>
    exact (evals inner here).bind fun reached idle => .skip (here.next reached idle)
  | print inner =>
    refine (evals inner here).bind fun reached idle => ?_
    have there := here.next reached idle
    exact (printValue_sim there _).imp fun later idle => there.passed later fun _ => idle
  | declare renamed ordinary => exact define_sim here renamed ordinary _
  | declareWith renamed ordinary value =>
    exact (evals value here).bind fun reached idle => define_sim (here.next reached idle) renamed ordinary _
  | block body => exact block_sim execs here body
  | ifOnly condition thenPart =>
    refine (evals condition here).bind fun {_ value _ _} reached idle => ?_
    have there := here.next reached idle
    cases value.truthy with
    | true => exact execs.plain there thenPart
    | false => exact .skip there
  | ifElse condition thenPart elsePart =>
    refine (evals condition here).bind fun {_ value _ _} reached idle => ?_
    have there := here.next reached idle
    cases value.truthy with
    | true => exact execs.plain there thenPart
    | false => exact execs.plain there elsePart
  | loop condition body => exact loop_sim evals execs here condition body
  | function name decl =>
    simp only [execStep, currentScope_bind, here.alike.scope]
    exact newFunction_define_sim here name fun chain => ⟨rfl, rfl, _, chain, decl, nofun⟩
  | ret => exact setPending_sim here _
  | retValue value =>
    exact (evals value here).bind fun reached idle => setPending_sim (here.next reached idle) _
  | plainClass name methods =>
    simp only [execStep]
    exact declareClass_plain_sim here name methods
  | subclass name parent blames methods => exact declareClass_sub_sim here name parent blames methods

/-! Whole runs. -/

private theorem exhausted_sim {post : List Renaming → α → State → Prop} (here : At p before ν Γ s s') :
    Sim p before ν s post ((throw Stop.exhausted : Eval α) s) ((throw Stop.exhausted : Eval α) s') :=
  .exhausted here.alike.toSettled

/-- Evaluation within a bound. -/
theorem eval_exec_sim (n : Nat) :
    EvalAlike p before (evalExpr ⟨p.left, limit, clock⟩ n) (evalExpr ⟨p.right, limit, clock⟩ n) ∧
      ExecAlike p before (execStmt ⟨p.left, limit, clock⟩ n) (execStmt ⟨p.right, limit, clock⟩ n) := by
  induction n with
  | zero => exact ⟨fun _ here => exhausted_sim here, fun _ here => exhausted_sim here⟩
  | succ n ih => exact ⟨evalStep_sim ih.1 ih.2, execStep_sim ih.1 ih.2⟩

/-- Programs at top level. -/
theorem execProgram_sim (bound : Nat) {ss ss' : List Stmt} (alike : Alike p false [] (.stmts ss) (.stmts ss'))
    (here : At p before ν [] s s') :
    Sim p before ν s Idle (execProgram ⟨p.left, limit, clock⟩ bound ss s)
      (execProgram ⟨p.right, limit, clock⟩ bound ss' s') := by
  induction ss generalizing ss' ν s s' with
  | nil =>
    cases alike
    exact .pure here _
  | cons c rest ih =>
    cases alike with
    | moreStmts first others =>
      refine ((eval_exec_sim bound).2 first here).bind fun reached passed => ?_
      have there := here.next reached (passed.1 rfl)
      refine ih ?_ there
      have outside : Layers.after [] c = [] := by
        unfold Layers.after
        split <;> rfl
      rwa [outside] at others

end
end Lox.Likeness
