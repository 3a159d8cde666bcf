import Lox.Proofs.Evaluation.Growth

/-! The steps of evaluation in grounded heaps. Each leaves the heap grounded, and later than it was; what it yields
exists. -/
namespace Lox.Lexical

open Evaluation
open Heap (Later)
open Site (Layer Everywhere layers)

/-- A state in a grounded heap, in a scope that there is. -/
structure Ready (P : Site → Prop) (H : History) (s : State) : Prop where
  heap : Grounded P H s.heap
  inside : s.scope < s.heap.scopes.size
  pending : ∀ value ∈ s.pending, value.Known s.heap

/-- A state of code that has these constructs around it. -/
structure At (P : Site → Prop) (H : History) (around : List Enclosure) (s : State) : Prop extends Ready P H s where
  chain : Chain H s.heap s.scope (layers around)

/-- A later state, back in the same scope. -/
structure After (P : Site → Prop) (H : History) (s t : State) : Prop extends Ready P H t where
  later : Later s.heap t.heap
  scope : t.scope = s.scope

/-- An evaluation ends in a later state, with a result of which `post` holds, or it stops in a grounded heap. -/
inductive Outcome (P : Site → Prop) (H : History) (s : State) (post : α → State → Prop) :
    EStateM.Result Stop State α → Prop where
  | ok (after : After P H s t) (held : post a t) : Outcome P H s post (.ok a t)
  | stopped (later : Later s.heap t.heap) (heap : Grounded P H t.heap) : Outcome P H s post (.error stop t)

/-- The result is a value that exists. -/
def Known (value : Value) (s : State) : Prop := value.Known s.heap

section

variable {P : Site → Prop} {H : History} {s t : State} {ctx : Context}

/-- The same state with a heap that has grown. -/
theorem Ready.grow (ready : Ready P H s) (later : Later s.heap h) (grounded : Grounded P H h) :
    After P H s { s with heap := h } :=
  ⟨⟨grounded, Nat.lt_of_lt_of_le ready.inside later.scopes, fun v pending => (ready.pending v pending).later later⟩,
    later, rfl⟩

theorem Ready.after (ready : Ready P H s) : After P H s s := ⟨ready, .refl _, rfl⟩

private theorem After.trans (first : After P H s t) (second : After P H t u) : After P H s u :=
  ⟨second.toReady, first.later.trans second.later, second.scope.trans first.scope⟩

theorem At.after (here : At P H around s) (after : After P H s t) : At P H around t :=
  ⟨after.toReady, after.scope ▸ here.chain.later after.later⟩

namespace Outcome

variable {post : α → State → Prop} {after : β → State → Prop}

theorem later {result : EStateM.Result Stop State α} (outcome : Outcome P H s post result) :
    Later s.heap (last result).heap := by
  cases outcome with
  | ok after => exact after.later
  | stopped later => exact later

theorem grounded {result : EStateM.Result Stop State α} (outcome : Outcome P H s post result) :
    Grounded P H (last result).heap := by
  cases outcome with
  | ok after => exact after.heap
  | stopped _ heap => exact heap

theorem pure (ready : Ready P H s) (held : post a s) : Outcome P H s post ((Pure.pure a : Eval α) s) :=
  .ok ready.after held

theorem fault (ready : Ready P H s) (cause : FaultCause) (blamed : Ident) :
    Outcome P H s post (fault cause blamed s) := .stopped (.refl _) ready.heap

theorem shift {result : EStateM.Result Stop State α} (before : After P H s t) (outcome : Outcome P H t post result) :
    Outcome P H s post result := by
  cases outcome with
  | ok after held => exact .ok (before.trans after) held
  | stopped later heap => exact .stopped (before.later.trans later) heap

private theorem bind {x : Eval α} {f : α → Eval β} (first : Outcome P H s post (x s))
    (next : ∀ {a t}, After P H s t → post a t → Outcome P H t after (f a t)) :
    Outcome P H s after ((x >>= f) s) := by
  simp only [Bind.bind, EStateM.bind]
  generalize x s = result at first
  cases first with
  | ok before held => exact (next before held).shift before
  | stopped later heap => exact .stopped later heap

end Outcome

/-! Variables. -/

theorem readAt_outcome (ready : Ready P H s) : Outcome P H s Known (readAt k d name s) := by
  unfold readAt
  split
  · rename_i found
    obtain ⟨_, bound⟩ := Heap.exists_of_getAt found
    exact .ok ready.after (ready.heap.bound bound)
  · exact .stopped (.refl _) ready.heap

theorem readVariable_outcome (ready : Ready P H s) : Outcome P H s Known (readVariable ctx node name s) := by
  unfold readVariable
  split
  · exact readAt_outcome ready
  · split
    · rename_i found
      obtain ⟨_, bound⟩ := Heap.exists_of_get? found
      exact .ok ready.after (ready.heap.bound bound)
    · exact .fault ready _ _

private theorem defineIn_outcome (ready : Ready P H s) (inside : k < s.heap.scopes.size) (ordinary : Ordinary name)
    (known : Known value s) : Outcome P H s (fun _ _ => True) (defineIn k name value s) :=
  .ok (ready.grow (.define s.heap inside ordinary value) (ready.heap.define inside ordinary known)) trivial

theorem define_outcome (here : At P H around s) (ordinary : Ordinary name) (known : Known value s) :
    Outcome P H s (fun _ _ => True) (define name value s) := defineIn_outcome here.toReady here.inside ordinary known

theorem assignVariable_outcome (ready : Ready P H s) (ordinary : Ordinary ref.name.text) (known : Known value s) :
    Outcome P H s (fun _ _ => True) (assignVariable ctx ref value s) := by
  unfold assignVariable
  split
  · split
    · rename_i found
      exact defineIn_outcome ready (Heap.inside_of_contains (Heap.contains_of_slotAt found)) ordinary known
    · exact .stopped (.refl _) ready.heap
  · split
    · rename_i found
      exact defineIn_outcome ready (Heap.inside_of_contains (Heap.contains_of_owner? found)) ordinary known
    · exact .fault ready _ _

/-! Scopes, functions, classes and instances. -/

theorem openScope_outcome (ready : Ready P H s) (chain : Chain H s.heap p Λ)
    (known : ∀ {name value}, Table.find? bindings name = some value → Known value s)
    (holds : Holds H (s.heap.newScope (some p) bindings).2 s.heap.scopes.size layer) :
    Outcome P H s (fun k t => Chain H t.heap k (layer :: Λ)) (openScope p bindings s) :=
  .ok (ready.grow (.newScope ..) (ready.heap.newScope (chain.inside ready.heap.inhabited) known))
    (chain.newScope ready.heap.inhabited (.refl _) holds)

theorem currentScope_outcome (here : At P H around s) :
    Outcome P H s (fun k t => Chain H t.heap k (layers around)) (currentScope s) := .ok here.toReady.after here.chain

theorem newFunction_outcome (ready : Ready P H s) (placed : Placed P H s.heap [] c) :
    Outcome P H s Known (newFunction c s) :=
  .ok (ready.grow (.newFunction ..) (ready.heap.newFunction placed)) (s.heap.lt_newFunction c)

theorem newInstance_outcome (ready : Ready P H s) (c : ClassId) :
    Outcome P H s (fun id t => Known (.object id) t) (newInstance c s) :=
  .ok (ready.grow (.newInstance ..) (ready.heap.newInstance c)) (s.heap.lt_newInstance c)

/-- A bound method stands in a scope that binds `this`. -/
theorem bindMethod_outcome {method : Closure} {receiver : InstanceId} (ready : Ready P H s)
    (placed : Placed P H s.heap [.this] method) (known : Known (.object receiver) s) :
    Outcome P H s (fun c t => Placed P H t.heap [] c) (bindMethod method receiver s) := by
  obtain ⟨chain, shape, body, params⟩ := placed
  have binds : ∀ {name value}, Table.find? [(Names.this, Value.object receiver)] name = some value →
      Known value s := by
    intro name value found
    obtain ⟨-, rfl⟩ := Table.eq_of_find?_single found
    exact known
  have holds : Holds H (s.heap.newScope (some method.scope) [(Names.this, .object receiver)]).2 s.heap.scopes.size
      .this := by
    refine ⟨receiver, ?_⟩
    rw [Heap.find?, Heap.scope_newScope, if_pos rfl, Table.find?_single, if_pos rfl]
  have opened := chain.newScope ready.heap.inhabited (.refl _) holds
  exact .ok (ready.grow (.newScope ..) (ready.heap.newScope (chain.inside ready.heap.inhabited) binds))
    ⟨opened, shape, body, params⟩

private theorem boundMethod_outcome {method : Closure} {receiver : InstanceId} (ready : Ready P H s)
    (placed : Placed P H s.heap [.this] method) (known : Known (.object receiver) s) :
    Outcome P H s Known (boundMethod method receiver s) :=
  (bindMethod_outcome ready placed known).bind fun after placed => newFunction_outcome after.toReady placed

theorem getProperty_outcome (ready : Ready P H s) (known : Known value s) :
    Outcome P H s Known (getProperty name value s) := by
  cases value with
  | object id =>
    unfold getProperty
    simp only
    split
    · rename_i found
      exact .ok ready.after (ready.heap.field found)
    · split
      · rename_i found
        exact boundMethod_outcome ready (ready.heap.method? found) known
      · exact .fault ready _ _
  | _ => exact .fault ready _ _

theorem setField_outcome {receiver : InstanceId} (ready : Ready P H s) (inside : Known (.object receiver) s)
    (known : Known value s) : Outcome P H s (fun _ _ => True) (setField receiver name value s) :=
  .ok (ready.grow (.setField s.heap inside ..) (ready.heap.setField inside name known)) trivial

theorem superMethod_outcome (ready : Ready P H s) : Outcome P H s Known (superMethod ctx node name s) := by
  unfold superMethod
  split
  · exact .stopped (.refl _) ready.heap
  · split
    · exact .stopped (.refl _) ready.heap
    · split
      · exact .stopped (.refl _) ready.heap
      · rename_i receiver this
        obtain ⟨_, bound⟩ := Heap.exists_of_getAt this
        split
        · rename_i found
          exact boundMethod_outcome ready (ready.heap.method? found) (ready.heap.bound bound)
        · exact .fault ready _ _
      · exact .stopped (.refl _) ready.heap
    · exact .stopped (.refl _) ready.heap

/-! Operators and the rest. -/

/-- Operators yield no references. -/
theorem known_of_apply {op : Operator} (applied : op.apply operands = .ok value) : value.Known h := by
  unfold Operator.apply at applied
  split at applied
  all_goals cases applied
  all_goals try trivial
  rename_i op x y _
  cases op <;> trivial

private theorem applyOperator_outcome (ready : Ready P H s) :
    Outcome P H s Known (applyOperator op symbol line operands s) := by
  unfold applyOperator
  cases applied : op.apply operands with
  | ok value => exact .pure ready (known_of_apply applied)
  | error => exact .fault ready _ _

theorem applyUnary_outcome (ready : Ready P H s) : Outcome P H s Known (applyUnary op line value s) := by
  unfold applyUnary
  split
  · exact .pure ready trivial
  · exact applyOperator_outcome ready

theorem applyBinary_outcome (ready : Ready P H s) : Outcome P H s Known (applyBinary op line left right s) := by
  unfold applyBinary
  split
  · exact .pure ready trivial
  · exact .pure ready trivial
  · exact applyOperator_outcome ready

theorem readClock_outcome (ready : Ready P H s) : Outcome P H s Known (readClock ctx s) :=
  .ok ⟨⟨ready.heap, ready.inside, ready.pending⟩, .refl _, rfl⟩ trivial

theorem printValue_outcome (ready : Ready P H s) : Outcome P H s (fun _ _ => True) (printValue value s) :=
  .ok ⟨⟨ready.heap, ready.inside, ready.pending⟩, .refl _, rfl⟩ trivial

/-- What a call runs stands where it should. -/
theorem checkCall_outcome (ready : Ready P H s) :
    Outcome P H s (fun callable t => callable.Holds (Placed P H t.heap []) (Placed P H t.heap [.this]))
      (checkCall ctx callee count line s) := by
  unfold checkCall
  simp only
  split
  · exact .fault ready _ _
  · rename_i called
    split
    · exact .fault ready _ _
    · split
      · exact .fault ready _ _
      · exact .ok ready.after (callable?_holds ready.heap.function ready.heap.method called)

/-! Declarations of classes. -/

/-- A superclass expression changes nothing. -/
theorem superclassOf_outcome (ready : Ready P H s) :
    Outcome P H s (fun c t => t = s ∧ superclassOf ctx ref s = .ok c s ∧ Known (.cls c) s)
      (superclassOf ctx ref s) := by
  have read : Outcome P H s Known (readVariable ctx ref.id ref.name s) := readVariable_outcome ready
  unfold superclassOf
  simp only [Bind.bind, EStateM.bind]
  cases ran : readVariable ctx ref.id ref.name s with
  | error stop t =>
    rw [ran] at read
    cases read with
    | stopped later heap => exact .stopped later heap
  | ok value t =>
    obtain rfl := readVariable_eq_ok ran
    rw [ran] at read
    cases read with
    | ok after known =>
      cases value with
      | cls c => exact .pure ready ⟨rfl, rfl, known⟩
      | _ => exact .fault ready _ _

private theorem newClass_outcome (ready : Ready P H s) {c : Class}
    (older : ∀ {parent}, c.superclass = some parent → parent < s.heap.classes.size)
    (placed : ∀ {name} {closure : Closure}, c.methods.find? name = some closure →
      Placed P H (s.heap.newClass c).2 [.this] closure)
    (marked : ∀ {closure : Closure}, c.methods.find? Names.initializer = some closure → closure.isInitializer = true) :
    Outcome P H s Known (newClass c s) :=
  .ok (ready.grow (.newClass ..) (ready.heap.newClass older placed marked)) (s.heap.lt_newClass c)

section

variable {name : Ident} {methods : List FunctionDecl} {around : List Enclosure} (ordinary : Ordinary name.text)
  (params : ∀ method ∈ methods, ∀ param ∈ method.params, Ordinary param.text)

include ordinary params

/-- Methods of a class without a superclass stand in the scope that the class is declared in. -/
theorem declarePlain_outcome (here : At P H around s)
    (bodies : ∀ method ∈ methods, ∀ stmt ∈ method.body,
      Everywhere P ⟨.stmt stmt, .methodBody method.name.text :: .classBody none methods :: around⟩) :
    Outcome P H s (fun _ _ => True) (declareClass ctx name none methods s) := by
  have made : Outcome P H s Known (newClass ⟨name.text, none, methodTable s.scope methods⟩ s) := by
    refine newClass_outcome here.toReady nofun (fun {method closure} found => ?_) isInitializer_of_methodTable
    obtain ⟨member, stands⟩ := mem_of_methodTable found
    refine ⟨?_, rfl, bodies closure.decl member, params closure.decl member⟩
    rw [stands]
    exact here.chain.later (.newClass ..)
  exact made.bind fun after known => define_outcome (here.after after) ordinary known

/-- Methods of a class with a superclass stand in a scope of their own that binds `super`. -/
theorem declareSubclass_outcome (here : At P H around s)
    (started : H ctx ⟨.start (.stmt (.classDef name (some ref) methods)), s⟩)
    (bodies : ∀ method ∈ methods, ∀ stmt ∈ method.body,
      Everywhere P ⟨.stmt stmt, .methodBody method.name.text :: .classBody (some ref) methods :: around⟩) :
    Outcome P H s (fun _ _ => True) (declareClass ctx name (some ref) methods s) := by
  refine (superclassOf_outcome here.toReady).bind fun {superclass t} after found => ?_
  obtain ⟨rfl, evaluated, known⟩ := found
  let h := (t.heap.newScope (some t.scope) [(Names.super, .cls superclass)]).2
  let c : Class := ⟨name.text, some superclass, methodTable t.heap.scopes.size methods⟩
  have binds : ∀ word, (h.newClass c).2.find? t.heap.scopes.size word =
      Table.find? [(Names.super, .cls superclass)] word := by
    intro word
    show h.find? t.heap.scopes.size word = _
    rw [Heap.find?, Heap.scope_newScope, if_pos rfl]
  have opened : After P H t { t with heap := h } := by
    refine here.toReady.grow (.newScope ..) (here.heap.newScope here.inside fun {word value} found => ?_)
    obtain ⟨-, rfl⟩ := Table.eq_of_find?_single found
    exact known
  -- Only with the class there does its scope go back to a declaration.
  have declared : Declared H (h.newClass c).2 ref methods t.heap.scopes.size superclass := by
    refine ⟨started, evaluated, h.lt_newClass c, ?_⟩
    exact (Heap.cls_newClass h c _).trans (if_pos rfl)
  have chain : Chain H (h.newClass c).2 t.heap.scopes.size (.super ref methods :: layers around) :=
    here.chain.newScope here.heap.inhabited (.newClass h c) ⟨binds _, superclass, binds _, declared⟩
  have made : Outcome P H { t with heap := h } Known (newClass c { t with heap := h }) := by
    refine newClass_outcome opened.toReady (fun {parent} isSuperclass => ?_) (fun {method closure} found => ?_)
      isInitializer_of_methodTable
    · cases isSuperclass
      exact known
    · obtain ⟨member, stands⟩ := mem_of_methodTable found
      refine ⟨?_, rfl, bodies closure.decl member, params closure.decl member⟩
      rw [stands]
      exact chain
  exact (made.bind fun after known => define_outcome ((here.after opened).after after) ordinary known).shift opened

end

end

end Lox.Lexical
