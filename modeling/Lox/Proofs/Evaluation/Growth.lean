import Lox.Proofs.Evaluation.Moments
import Lox.Proofs.Heap
import Lox.Proofs.Resolution.Layers

/-! Heaps as they grow. Nothing is ever taken out of a heap, and much of what is in it never changes. A piece of code
stands in scopes that are as the constructs around it have it: what binds `this` binds an instance, and what binds
`super` goes back to the moment at which the class around was declared. -/
namespace Lox

namespace Heap

/-- What a heap has become later. Everything in it is still there, and the links between scopes, the functions, the
classes and the classes of instances are as they were. So are the bindings of the words that are no ordinary names. -/
structure Later (h h' : Heap) : Prop where
  scopes : h.scopes.size ≤ h'.scopes.size
  functions : h.functions.size ≤ h'.functions.size
  classes : h.classes.size ≤ h'.classes.size
  instances : h.instances.size ≤ h'.instances.size
  parent : ∀ {k}, k < h.scopes.size → (h'.scope k).parent = (h.scope k).parent
  word : ∀ {k name}, ¬ Ordinary name → k < h.scopes.size → h'.find? k name = h.find? k name
  function : ∀ {id}, id < h.functions.size → h'.function id = h.function id
  cls : ∀ {id}, id < h.classes.size → h'.cls id = h.cls id
  object : ∀ {id}, id < h.instances.size → (h'.object id).cls = (h.object id).cls

namespace Later

theorem refl (h : Heap) : Later h h :=
  ⟨Nat.le_refl _, Nat.le_refl _, Nat.le_refl _, Nat.le_refl _, fun _ => rfl, fun _ _ => rfl, fun _ => rfl,
    fun _ => rfl, fun _ => rfl⟩

theorem trans (first : Later h h') (second : Later h' h'') : Later h h'' where
  scopes := Nat.le_trans first.scopes second.scopes
  functions := Nat.le_trans first.functions second.functions
  classes := Nat.le_trans first.classes second.classes
  instances := Nat.le_trans first.instances second.instances
  parent inside := (second.parent (Nat.lt_of_lt_of_le inside first.scopes)).trans (first.parent inside)
  word reserved inside :=
    (second.word reserved (Nat.lt_of_lt_of_le inside first.scopes)).trans (first.word reserved inside)
  function inside := (second.function (Nat.lt_of_lt_of_le inside first.functions)).trans (first.function inside)
  cls inside := (second.cls (Nat.lt_of_lt_of_le inside first.classes)).trans (first.cls inside)
  object inside := (second.object (Nat.lt_of_lt_of_le inside first.instances)).trans (first.object inside)

theorem newScope (h : Heap) (parent : Option ScopeId) (bindings : Table Value) :
    Later h (h.newScope parent bindings).2 := by
  have same : ∀ {k}, k < h.scopes.size → (h.newScope parent bindings).2.scope k = h.scope k := by
    intro k inside
    rw [scope_newScope, if_neg (Nat.ne_of_lt inside)]
  refine { refl h with scopes := ?_, parent := ?_, word := ?_ }
  · exact Nat.le_of_lt (lt_newScope ..)
  · intro k inside
    rw [same inside]
  · intro k name _ inside
    rw [find?, find?, same inside]

/-- Ordinary names may be bound anew. -/
theorem define (h : Heap) {k : ScopeId} {name : Text} (inside : k < h.scopes.size) (ordinary : Ordinary name)
    (value : Value) : Later h (h.define k name value) := by
  refine { refl h with scopes := Nat.le_of_eq (size_define ..).symm, parent := ?_, word := ?_ }
  · intro other _
    rw [scope_define h inside]
    split <;> simp_all
  · intro other word reserved _
    rw [find?, find?, scope_define h inside]
    split
    · rename_i here
      have apart : ¬ name = word := fun same => reserved (same ▸ ordinary)
      rw [here, Table.find?_insert, if_neg apart]
    · rfl

theorem newFunction (h : Heap) (closure : Closure) : Later h (h.newFunction closure).2 := by
  refine { refl h with functions := ?_, function := ?_ }
  · exact Nat.le_of_lt (lt_newFunction ..)
  · intro id inside
    rw [function_newFunction, if_neg (Nat.ne_of_lt inside)]

theorem newClass (h : Heap) (c : Class) : Later h (h.newClass c).2 := by
  refine { refl h with classes := ?_, cls := ?_ }
  · exact Nat.le_of_lt (lt_newClass ..)
  · intro id inside
    rw [cls_newClass, if_neg (Nat.ne_of_lt inside)]

theorem newInstance (h : Heap) (c : ClassId) : Later h (h.newInstance c).2 := by
  refine { refl h with instances := ?_, object := ?_ }
  · exact Nat.le_of_lt (lt_newInstance ..)
  · intro id inside
    rw [object_newInstance, if_neg (Nat.ne_of_lt inside)]

theorem setField (h : Heap) {id : InstanceId} (inside : id < h.instances.size) (name : Text) (value : Value) :
    Later h (h.setField id name value) := by
  refine { refl h with instances := Nat.le_of_eq Array.size_modify.symm, object := ?_ }
  intro other _
  rw [object_setField h inside]
  split
  · rename_i here
    rw [here]
  · rfl

end Later

/-- All scopes lie inside the globals, each of them in an older one. -/
structure Rooted (h : Heap) : Prop where
  outermost : (h.scope globals).parent = none
  enclosed : ∀ {k}, k ≠ globals → k < h.scopes.size → ∃ p < k, (h.scope k).parent = some p

namespace Rooted

private theorem newScope (rooted : Rooted h) (inside : p < h.scopes.size) (bindings : Table Value) :
    Rooted (h.newScope (some p) bindings).2 := by
  constructor
  · have apart : globals ≠ h.scopes.size := Nat.ne_of_lt (Nat.zero_lt_of_lt inside)
    rw [scope_newScope, if_neg apart]
    exact rooted.outermost
  · intro k inner below
    rw [Heap.newScope, Array.size_push] at below
    rw [scope_newScope]
    by_cases new : k = h.scopes.size
    · rw [if_pos new, new]
      exact ⟨p, inside, rfl⟩
    · rw [if_neg new]
      exact rooted.enclosed inner (Nat.lt_of_le_of_ne (Nat.lt_succ_iff.1 below) new)

/-- No scope is added. -/
theorem later (rooted : Rooted h) (later : Later h h') (inhabited : 0 < h.scopes.size)
    (size : h'.scopes.size = h.scopes.size) : Rooted h' := by
  constructor
  · exact (later.parent inhabited).trans rooted.outermost
  · intro k inner below
    rw [size] at below
    rw [later.parent below]
    exact rooted.enclosed inner below

end Rooted

/-! The superclass chain. -/

/-- The nearest definition of a name on the superclass chain, if there is one. -/
inductive Nearest (h : Heap) (name : Text) : ClassId → Option Closure → Prop where
  | own {closure : Closure} (defined : (h.cls c).methods.find? name = some closure) : Nearest h name c (some closure)
  | inherited (absent : (h.cls c).methods.find? name = none) (superclass : (h.cls c).superclass = some parent)
      (further : Nearest h name parent found) : Nearest h name c found
  | missing (absent : (h.cls c).methods.find? name = none) (root : (h.cls c).superclass = none) : Nearest h name c none

/-- The search for a method has enough steps to come to the nearest one. -/
theorem nearest_method? {h : Heap} (older : ∀ {id parent}, (h.cls id).superclass = some parent → parent < id)
    (id : ClassId) (name : Text) : Nearest h name id (h.method? id name) := by
  suffices along : ∀ n id, id < n → Nearest h name id (h.methodWithin name n id) from along _ _ (Nat.lt_succ_self id)
  intro n
  induction n with
  | zero => exact fun _ below => absurd below (Nat.not_lt_zero _)
  | succ n ih =>
    intro id below
    rw [methodWithin]
    cases defined : (h.cls id).methods.find? name with
    | some closure => exact .own defined
    | none =>
      cases superclass : (h.cls id).superclass with
      | none => exact .missing defined superclass
      | some parent =>
        have above : parent < n := Nat.lt_of_lt_of_le (older superclass) (Nat.lt_succ_iff.1 below)
        exact .inherited defined superclass (ih parent above)

end Heap

/-- The class, instance or function that a value names exists. -/
def Value.Known (h : Heap) : Value → Prop
  | .cls id => id < h.classes.size
  | .object id => id < h.instances.size
  | .function id => id < h.functions.size
  | .nil | .bool _ | .number _ | .string _ | .clock => True

theorem Value.Known.later {value : Value} (known : value.Known h) (later : h.Later h') : value.Known h' := by
  cases value with
  | cls => exact Nat.lt_of_lt_of_le known later.classes
  | object => exact Nat.lt_of_lt_of_le known later.instances
  | function => exact Nat.lt_of_lt_of_le known later.functions
  | nil | bool | number | string | clock => trivial

namespace Lexical

open Evaluation
open Heap (Later)
open Site (Layer Everywhere layers)

/-- What has been done, with what was fixed while it was done. -/
abbrev History := Context → Moment → Prop

/-- A class was declared below a superclass, and its methods stand in the scope `home`: what the superclass
expression was at that moment, and the class that came of it. -/
inductive Declared (H : History) (h : Heap) (ref : Reference) (methods : List FunctionDecl) :
    ScopeId → ClassId → Prop where
  | intro (moment : H ctx ⟨.start (.stmt (.classDef name (some ref) methods)), s⟩)
      (evaluated : superclassOf ctx ref s = .ok superclass s) (inside : s.heap.classes.size < h.classes.size)
      (made : h.cls s.heap.classes.size = ⟨name.text, some superclass, methodTable s.heap.scopes.size methods⟩) :
      Declared H h ref methods s.heap.scopes.size superclass

private theorem Declared.later (declared : Declared H h ref methods home superclass) (later : Later h h') :
    Declared H h' ref methods home superclass := by
  obtain ⟨moment, evaluated, inside, made⟩ := declared
  exact ⟨moment, evaluated, Nat.lt_of_lt_of_le inside later.classes, (later.cls inside).trans made⟩

private theorem Declared.imp (declared : Declared H h ref methods home superclass)
    (more : ∀ ctx moment, H ctx moment → K ctx moment) : Declared K h ref methods home superclass := by
  obtain ⟨moment, evaluated, inside, made⟩ := declared
  exact ⟨more _ _ moment, evaluated, inside, made⟩

/-- What a scope binds that is one of these layers. -/
def Holds (H : History) (h : Heap) (k : ScopeId) : Layer → Prop
  | .plain => h.find? k Names.this = none
  | .this => ∃ receiver, h.find? k Names.this = some (.object receiver)
  | .super ref methods => h.find? k Names.this = none ∧
    ∃ superclass, h.find? k Names.super = some (.cls superclass) ∧ Declared H h ref methods k superclass

theorem this_reserved : ¬ Ordinary Names.this := fun ordinary => ordinary.1 rfl

theorem super_reserved : ¬ Ordinary Names.super := fun ordinary => ordinary.2 rfl

private theorem Holds.later {layer : Layer} (holds : Holds H h k layer) (inside : k < h.scopes.size)
    (later : Later h h') :
    Holds H h' k layer := by
  cases layer with
  | plain => exact (later.word this_reserved inside).trans holds
  | this =>
    obtain ⟨receiver, bound⟩ := holds
    exact ⟨receiver, (later.word this_reserved inside).trans bound⟩
  | super ref methods =>
    obtain ⟨unbound, superclass, bound, declared⟩ := holds
    exact ⟨(later.word this_reserved inside).trans unbound, superclass,
      (later.word super_reserved inside).trans bound, declared.later later⟩

/-- The scopes from one scope outwards are these layers. The globals lie outside all of them. -/
inductive Chain (H : History) (h : Heap) : ScopeId → List Layer → Prop where
  | globals : Chain H h Heap.globals []
  | inner (inside : k < h.scopes.size) (parent : (h.scope k).parent = some p) (older : p < k)
      (holds : Holds H h k layer) (outer : Chain H h p Λ) : Chain H h k (layer :: Λ)

namespace Chain

theorem inside (chain : Chain H h k Λ) (inhabited : 0 < h.scopes.size) : k < h.scopes.size := by
  cases chain with
  | globals => exact inhabited
  | inner inside => exact inside

theorem later (chain : Chain H h k Λ) (later : Later h h') : Chain H h' k Λ := by
  induction chain with
  | globals => exact .globals
  | inner inside parent older holds _ ih =>
    exact .inner (Nat.lt_of_lt_of_le inside later.scopes) ((later.parent inside).trans parent) older
      (holds.later inside later) ih

theorem imp (chain : Chain H h k Λ) (more : ∀ ctx moment, H ctx moment → K ctx moment) : Chain K h k Λ := by
  induction chain with
  | globals => exact .globals
  | @inner k p layer Λ inside parent older holds _ ih =>
    refine .inner inside parent older ?_ ih
    cases layer with
    | plain | this => exact holds
    | super ref methods =>
      obtain ⟨unbound, superclass, bound, declared⟩ := holds
      exact ⟨unbound, superclass, bound, declared.imp more⟩

/-- A new scope lies inside the one it is opened in. -/
theorem newScope (chain : Chain H h p Λ) (inhabited : 0 < h.scopes.size)
    (later : Later (h.newScope (some p) bindings).2 h') (holds : Holds H h' h.scopes.size layer) :
    Chain H h' h.scopes.size (layer :: Λ) := by
  have inside : h.scopes.size < (h.newScope (some p) bindings).2.scopes.size := h.lt_newScope ..
  have before : Later h (h.newScope (some p) bindings).2 := .newScope ..
  refine .inner (Nat.lt_of_lt_of_le inside later.scopes) ?_ (chain.inside inhabited) holds
    (chain.later (before.trans later))
  rw [later.parent inside, Heap.scope_newScope, if_pos rfl]

/-- A layer is found at its distance. -/
theorem ancestor? (chain : Chain H h k Λ) (found : Λ[d]? = some layer) :
    ∃ target, h.ancestor? d k = some target ∧ target < h.scopes.size ∧ Holds H h target layer := by
  induction chain generalizing d with
  | globals => cases found
  | @inner k p _ Λ inside parent older holds outer ih =>
    cases d with
    | zero =>
      cases found
      exact ⟨k, rfl, inside, holds⟩
    | succ d =>
      rw [Heap.ancestor?, parent]
      exact ih found

/-- The nearest scope that binds `this` is the one whose layer is made for it. -/
theorem owner?_this (chain : Chain H h k Λ) (found : Λ.findIdx? (·.isThis) = some d) :
    ∃ target receiver, h.ancestor? d k = some target ∧ h.owner? k Names.this = some target ∧
      h.find? target Names.this = some (.object receiver) := by
  -- `owner?` goes on in the parent with a number of steps that is only known to be enough
  suffices along : ∀ n, k < n → ∃ target receiver, h.ancestor? d k = some target ∧
      h.ownerWithin Names.this n k = some target ∧ h.find? target Names.this = some (.object receiver) from
    along _ (Nat.lt_succ_self k)
  induction chain generalizing d with
  | globals => cases found
  | @inner k p layer Λ inside parent older holds outer ih =>
    intro n enough
    obtain ⟨n, rfl⟩ := Nat.exists_eq_succ_of_ne_zero (Nat.ne_zero_of_lt enough)
    rw [List.findIdx?_cons] at found
    have further : h.find? k Names.this = none → layer.isThis = false →
        ∃ target receiver, h.ancestor? d k = some target ∧ h.ownerWithin Names.this (n + 1) k = some target ∧
          h.find? target Names.this = some (.object receiver) := by
      intro unbound other
      rw [other, if_neg Bool.false_ne_true] at found
      obtain ⟨e, foundOuter, rfl⟩ := Option.map_eq_some_iff.1 found
      obtain ⟨target, receiver, ancestor, owner, bound⟩ :=
        ih foundOuter n (Nat.lt_of_lt_of_le older (Nat.lt_succ_iff.1 enough))
      have absent : ¬ (h.scope k).bindings.contains Names.this = true := by
        intro contains
        obtain ⟨_, bound⟩ := Table.contains_eq_true.1 contains
        exact Option.some_ne_none _ (bound.symm.trans unbound)
      refine ⟨target, receiver, ?_, ?_, bound⟩
      · rw [Heap.ancestor?, parent]
        exact ancestor
      · rw [Heap.ownerWithin, if_neg absent, parent]
        exact owner
    cases layer with
    | plain => exact further holds rfl
    | super => exact further holds.1 rfl
    | this =>
      obtain ⟨receiver, bound⟩ := holds
      rw [Layer.isThis, if_pos rfl] at found
      cases found
      refine ⟨k, receiver, rfl, ?_, bound⟩
      rw [Heap.ownerWithin, if_pos (Table.contains_eq_true.2 ⟨_, bound⟩)]

end Chain
/-- A function stands where its code is good, once the layers of its own are around it. -/
inductive Placed (P : Site → Prop) (H : History) (h : Heap) (own : List Layer) (c : Closure) : Prop where
  | intro (chain : Chain H h c.scope Λ) (shape : layers around = .plain :: (own ++ Λ))
      (body : ∀ s ∈ c.decl.body, Everywhere P ⟨.stmt s, around⟩)
      (params : ∀ param ∈ c.decl.params, Ordinary param.text)

theorem Placed.later (placed : Placed P H h own c) (later : Later h h') : Placed P H h' own c := by
  obtain ⟨chain, shape, body, params⟩ := placed
  exact ⟨chain.later later, shape, body, params⟩

/-- A heap in which all functions stand where they should. Methods stand where there is `this`, which there will be
once they are bound; those that initialize are marked. Values name what exists, and enclosing scopes and superclasses
are older than what they enclose and their classes. -/
structure Grounded (P : Site → Prop) (H : History) (h : Heap) : Prop where
  inhabited : 0 < h.scopes.size
  rooted : h.Rooted
  bound : ∀ {k name value}, h.find? k name = some value → value.Known h
  field : ∀ {id name value}, (h.object id).fields.find? name = some value → value.Known h
  older : ∀ {id parent}, (h.cls id).superclass = some parent → parent < id
  function : ∀ id, Placed P H h [] (h.function id)
  method : ∀ {id name} {closure : Closure}, (h.cls id).methods.find? name = some closure →
    Placed P H h [.this] closure
  marked : ∀ {id} {closure : Closure}, (h.cls id).methods.find? Names.initializer = some closure →
    closure.isInitializer = true

namespace Grounded

variable {P : Site → Prop} {H : History} {h : Heap}

theorem initial (P : Site → Prop) (H : History) : Grounded P H Heap.initial := by
  refine ⟨Nat.zero_lt_one, ⟨rfl, ?_⟩, ?_, nofun, nofun, ?_, nofun, nofun⟩
  · intro k inner below
    exact absurd (Nat.lt_one_iff.1 below) inner
  · intro k name value found
    rw [Heap.find?, Heap.initial, Heap.scope_newScope] at found
    split at found
    · obtain ⟨-, rfl⟩ := Table.eq_of_find?_single found
      trivial
    · cases found
  · intro id
    have shape : layers [.functionBody] = [.plain] := rfl
    exact ⟨.globals, shape, nofun, nofun⟩

theorem imp {Q : Site → Prop} {K : History} (grounded : Grounded P H h) (weaker : ∀ site, P site → Q site)
    (more : ∀ ctx moment, H ctx moment → K ctx moment) : Grounded Q K h := by
  have code : ∀ {own c}, Placed P H h own c → Placed Q K h own c := by
    rintro own c ⟨chain, shape, body, params⟩
    exact ⟨chain.imp more, shape, fun s member inner inside => weaker _ (body s member inner inside), params⟩
  exact { grounded with
    function := fun id => code (grounded.function id), method := fun found => code (grounded.method found) }

/-- Scopes are added, or bind other values. -/
theorem ofScopes (grounded : Grounded P H h) (later : Later h h') (rooted : h'.Rooted)
    (functions : h'.functions = h.functions) (classes : h'.classes = h.classes) (instances : h'.instances = h.instances)
    (bound : ∀ {k name value}, h'.find? k name = some value → value.Known h) : Grounded P H h' := by
  refine ⟨Nat.lt_of_lt_of_le grounded.inhabited later.scopes, rooted, fun found => (bound found).later later,
    ?_, ?_, ?_, ?_, ?_⟩
  · intro id name value found
    rw [Heap.object, instances] at found
    exact (grounded.field found).later later
  · intro id parent superclass
    rw [Heap.cls, classes] at superclass
    exact grounded.older superclass
  · intro id
    rw [Heap.function, functions]
    exact (grounded.function id).later later
  · intro id name closure found
    rw [Heap.cls, classes] at found
    exact (grounded.method found).later later
  · intro id closure found
    rw [Heap.cls, classes] at found
    exact grounded.marked found

theorem newScope (grounded : Grounded P H h) (inside : p < h.scopes.size)
    (known : ∀ {name value}, Table.find? bindings name = some value → value.Known h) :
    Grounded P H (h.newScope (some p) bindings).2 := by
  refine grounded.ofScopes (.newScope ..) (grounded.rooted.newScope inside bindings) rfl rfl rfl fun {k name value} found => ?_
  rw [Heap.find?, Heap.scope_newScope] at found
  split at found
  · exact known found
  · exact grounded.bound found

theorem define (grounded : Grounded P H h) {k : ScopeId} {name : Text} (inside : k < h.scopes.size)
    (ordinary : Ordinary name) (known : value.Known h) : Grounded P H (h.define k name value) := by
  have later : Later h (h.define k name value) := .define h inside ordinary value
  have rooted := grounded.rooted.later later grounded.inhabited (Heap.size_define ..)
  refine grounded.ofScopes later rooted rfl rfl rfl fun {other bound v} found => ?_
  rw [Heap.find?, Heap.scope_define h inside] at found
  split at found
  · rw [Table.find?_insert] at found
    split at found
    · cases found
      exact known
    · exact grounded.bound found
  · exact grounded.bound found

theorem newFunction (grounded : Grounded P H h) (placed : Placed P H h [] c) : Grounded P H (h.newFunction c).2 := by
  have later : Later h (h.newFunction c).2 := .newFunction h c
  refine ⟨grounded.inhabited, grounded.rooted.later later grounded.inhabited rfl,
    fun found => (grounded.bound found).later later,
    fun found => (grounded.field found).later later, grounded.older, fun id => ?_,
    fun found => (grounded.method found).later later, grounded.marked⟩
  rw [Heap.function_newFunction]
  split
  · exact placed.later later
  · exact (grounded.function id).later later

/-- The methods of a new class may stand in scopes that go back to its own declaration. -/
theorem newClass (grounded : Grounded P H h) {c : Class}
    (older : ∀ {parent}, c.superclass = some parent → parent < h.classes.size)
    (placed : ∀ {name} {closure : Closure}, c.methods.find? name = some closure →
      Placed P H (h.newClass c).2 [.this] closure)
    (marked : ∀ {closure : Closure}, c.methods.find? Names.initializer = some closure → closure.isInitializer = true) :
    Grounded P H (h.newClass c).2 := by
  have later : Later h (h.newClass c).2 := .newClass h c
  refine ⟨grounded.inhabited, grounded.rooted.later later grounded.inhabited rfl,
    fun found => (grounded.bound found).later later,
    fun found => (grounded.field found).later later, fun {id parent} superclass => ?_,
    fun id => (grounded.function id).later later, fun {id name closure} found => ?_, fun {id closure} found => ?_⟩
  · rw [Heap.cls_newClass] at superclass
    split at superclass
    · rename_i new
      rw [new]
      exact older superclass
    · exact grounded.older superclass
  · rw [Heap.cls_newClass] at found
    split at found
    · exact placed found
    · exact (grounded.method found).later later
  · rw [Heap.cls_newClass] at found
    split at found
    · exact marked found
    · exact grounded.marked found

/-- Instances are made and changed. -/
theorem ofInstances (grounded : Grounded P H h) {instances : Array Instance} (later : Later h { h with instances })
    (field : ∀ {id name value}, (Heap.object { h with instances } id).fields.find? name = some value →
      value.Known h) : Grounded P H { h with instances } :=
  ⟨grounded.inhabited, grounded.rooted.later later grounded.inhabited rfl,
    fun found => (grounded.bound found).later later, fun found => (field found).later later,
    grounded.older, fun id => (grounded.function id).later later, fun found => (grounded.method found).later later,
    grounded.marked⟩

theorem newInstance (grounded : Grounded P H h) (c : ClassId) : Grounded P H (h.newInstance c).2 := by
  refine grounded.ofInstances (.newInstance h c) fun {id name value} found => ?_
  have found : ((h.newInstance c).2.object id).fields.find? name = some value := found
  rw [Heap.object_newInstance] at found
  split at found
  · cases found
  · exact grounded.field found

theorem setField (grounded : Grounded P H h) {id : InstanceId} (inside : id < h.instances.size) (name : Text)
    (known : value.Known h) : Grounded P H (h.setField id name value) := by
  refine grounded.ofInstances (.setField h inside name value) fun {other field v} found => ?_
  have found : ((h.setField id name value).object other).fields.find? field = some v := found
  rw [Heap.object_setField h inside] at found
  split at found
  · rw [Table.find?_insert] at found
    split at found
    · cases found
      exact known
    · exact grounded.field found
  · exact grounded.field found

theorem method? {id : ClassId} {closure : Closure} (grounded : Grounded P H h)
    (found : h.method? id name = some closure) : Placed P H h [.this] closure := by
  obtain ⟨_, own⟩ := Heap.exists_of_method? found
  exact grounded.method own

end Grounded
end Lexical
end Lox
