import Lox.Evaluation
import Lox.Proofs.Table

/-! What the operations of the heap do to what is read from it: each changes one scope, function, class
or instance and leaves the rest as it was. Calls run what is in it, and nothing else. -/
namespace Lox

namespace Heap

/-- Nothing is known of the scope that comes next. -/
theorem scope_size (h : Heap) : h.scope h.scopes.size = default := by simp [scope]

theorem lt_newScope (h : Heap) (parent : Option ScopeId) (bindings : Table Value) :
    h.scopes.size < (h.newScope parent bindings).2.scopes.size := by
  rw [newScope, Array.size_push]
  exact Nat.lt_succ_self _

theorem scope_newScope (h : Heap) (parent : Option ScopeId) (bindings : Table Value) (id : ScopeId) :
    (h.newScope parent bindings).2.scope id =
      if id = h.scopes.size then ⟨parent, bindings⟩ else h.scope id := by
  simp only [newScope, scope, Array.getElem?_push]
  split <;> rfl

theorem scope_define (h : Heap) {id : ScopeId} (inside : id < h.scopes.size) (name : Text) (value : Value)
    (other : ScopeId) : (h.define id name value).scope other =
      if other = id then { h.scope id with bindings := (h.scope id).bindings.insert name value }
      else h.scope other := by
  simp only [define, scope, Array.getElem?_modify]
  by_cases here : id = other
  · subst here
    simp [inside]
  · have apart : ¬ other = id := fun same => here same.symm
    simp [here, apart]

theorem size_define (h : Heap) (id : ScopeId) (name : Text) (value : Value) :
    (h.define id name value).scopes.size = h.scopes.size := Array.size_modify

/-- What is bound at once in a new scope may be there from the start. -/
theorem define_newScope (h : Heap) (parent : Option ScopeId) (bindings : Table Value) (name : Text) (value : Value) :
    (h.newScope parent bindings).2.define h.scopes.size name value =
      (h.newScope parent (bindings.insert name value)).2 := by
  simp only [newScope, define, mk.injEq, and_true]
  apply Array.ext_getElem?
  intro i
  simp only [Array.getElem?_modify, Array.getElem?_push]
  split <;> split <;> simp_all

theorem newScope_define (h : Heap) {k : ScopeId} (inside : k < h.scopes.size) (name : Text) (value : Value)
    (parent : Option ScopeId) (bindings : Table Value) :
    ((h.define k name value).newScope parent bindings).2 = (h.newScope parent bindings).2.define k name value := by
  simp only [newScope, define, mk.injEq, and_true]
  apply Array.ext_getElem?
  intro i
  simp only [Array.getElem?_modify, Array.getElem?_push, Array.size_modify]
  by_cases here : k = i
  · have apart : ¬ i = h.scopes.size := Nat.ne_of_lt (here ▸ inside)
    simp [here, apart]
  · simp [here]

/-- Of two values that are bound to one name the second one stays. -/
theorem define_define (h : Heap) (k : ScopeId) (name : Text) (a b : Value) :
    (h.define k name a).define k name b = h.define k name b := by
  simp only [define, mk.injEq, and_true]
  apply Array.ext_getElem?
  intro i
  simp only [Array.getElem?_modify]
  by_cases here : k = i
  · simp only [here, if_true, Option.map_map]
    congr 1
    funext scope
    simp only [Function.comp, Table.insert_insert]
  · simp only [here, if_false]

theorem assign?_of_contains {h : Heap} (bound : (h.scope k).bindings.contains name = true) (value : Value) :
    h.assign? k name value = some (h.define k name value) := by
  simp only [assign?, owner?, ownerWithin, if_pos bound, Option.map_some]

/-- Nothing lies outside the globals. -/
theorem owner?_globals {h : Heap} (owner : h.owner? globals name = some k) : k = globals := by
  simp only [owner?, globals, ownerWithin] at owner
  split at owner
  · exact (Option.some.inj owner).symm
  · split at owner <;> cases owner

theorem lt_newFunction (h : Heap) (closure : Closure) :
    h.functions.size < (h.newFunction closure).2.functions.size := by
  rw [newFunction, Array.size_push]
  exact Nat.lt_succ_self _

theorem function_newFunction (h : Heap) (closure : Closure) (id : FunctionId) :
    (h.newFunction closure).2.function id =
      if id = h.functions.size then closure else h.function id := by
  simp only [newFunction, function, Array.getElem?_push]
  split <;> rfl

theorem lt_newClass (h : Heap) (c : Class) : h.classes.size < (h.newClass c).2.classes.size := by
  rw [newClass, Array.size_push]
  exact Nat.lt_succ_self _

theorem cls_newClass (h : Heap) (c : Class) (id : ClassId) :
    (h.newClass c).2.cls id = if id = h.classes.size then c else h.cls id := by
  simp only [newClass, cls, Array.getElem?_push]
  split <;> rfl

theorem lt_newInstance (h : Heap) (c : ClassId) : h.instances.size < (h.newInstance c).2.instances.size := by
  rw [newInstance, Array.size_push]
  exact Nat.lt_succ_self _

theorem object_newInstance (h : Heap) (c : ClassId) (id : InstanceId) :
    (h.newInstance c).2.object id = if id = h.instances.size then ⟨c, []⟩ else h.object id := by
  simp only [newInstance, object, Array.getElem?_push]
  split <;> rfl

theorem object_setField (h : Heap) {id : InstanceId} (inside : id < h.instances.size) (name : Text) (value : Value)
    (other : InstanceId) : (h.setField id name value).object other =
      if other = id then { h.object id with fields := (h.object id).fields.insert name value }
      else h.object other := by
  simp only [setField, object, Array.getElem?_modify]
  by_cases here : id = other
  · subst here
    simp [inside]
  · have apart : ¬ other = id := fun same => here same.symm
    simp [here, apart]

/-- A method that is found is one of a class's own, here or further up. -/
theorem exists_of_method? {h : Heap} {id : ClassId} {closure : Closure} (found : h.method? id name = some closure) :
    ∃ id, (h.cls id).methods.find? name = some closure := by
  suffices along : ∀ n id, h.methodWithin name n id = some closure →
      ∃ id, (h.cls id).methods.find? name = some closure from along _ _ found
  intro n
  induction n with
  | zero => intro id found; cases found
  | succ n ih =>
    intro id found
    rw [methodWithin] at found
    split at found
    · cases found
      exact ⟨id, ‹_›⟩
    · split at found
      · cases found
      · exact ih _ found

/-- Only scopes that exist bind names. -/
theorem inside_of_contains {h : Heap} {id : ScopeId} (bound : (h.scope id).bindings.contains name = true) :
    id < h.scopes.size := by
  apply Classical.byContradiction
  intro outside
  rw [scope, Array.getElem?_eq_none (Nat.not_lt.1 outside)] at bound
  cases bound

/-- The scope that a search by name ends in binds the name. -/
theorem contains_of_owner? {h : Heap} {id : ScopeId} (owner : h.owner? id name = some target) :
    (h.scope target).bindings.contains name = true := by
  suffices along : ∀ n id, h.ownerWithin name n id = some target →
      (h.scope target).bindings.contains name = true from along _ _ owner
  intro n
  induction n with
  | zero => intro id owner; cases owner
  | succ n ih =>
    intro id owner
    rw [ownerWithin] at owner
    split at owner
    · cases owner
      assumption
    · split at owner
      · cases owner
      · exact ih _ owner

/-- The scope at a distance that has to bind the name does. -/
theorem contains_of_slotAt {h : Heap} (found : h.slotAt k d name = .ok target) :
    (h.scope target).bindings.contains name = true := by
  unfold slotAt at found
  split at found
  · cases found
  · split at found
    · cases found
      assumption
    · cases found

/-- What is read is bound in the scope at the distance. -/
theorem slotAt_of_getAt {h : Heap} (found : h.getAt k d name = .ok value) :
    ∃ target, h.slotAt k d name = .ok target ∧ h.find? target name = some value := by
  unfold getAt at found
  cases slot : h.slotAt k d name with
  | error b =>
    rw [slot] at found
    cases found
  | ok target =>
    rw [slot] at found
    refine ⟨target, rfl, ?_⟩
    cases bound : h.find? target name with
    | none => simp [Except.bind, bound] at found
    | some v =>
      simp only [Except.bind, bound, Except.ok.injEq] at found
      rw [found]

theorem exists_of_getAt {h : Heap} (found : h.getAt k d name = .ok value) :
    ∃ target, h.find? target name = some value := by
  obtain ⟨target, -, bound⟩ := slotAt_of_getAt found
  exact ⟨target, bound⟩

/-- At distance zero is the scope itself. -/
theorem find?_of_getAt {h : Heap} (found : h.getAt k 0 name = .ok value) : h.find? k name = some value := by
  obtain ⟨target, slot, bound⟩ := slotAt_of_getAt found
  unfold slotAt ancestor? at slot
  simp only at slot
  split at slot
  · cases slot
    exact bound
  · cases slot

theorem exists_of_get? {h : Heap} (found : h.get? k name = some value) :
    ∃ target, h.find? target name = some value := by
  obtain ⟨target, -, bound⟩ := Option.bind_eq_some_iff.1 found
  exact ⟨target, bound⟩

theorem getAt_of_find? {h : Heap} (ancestor : h.ancestor? d k = some target)
    (bound : h.find? target name = some value) : h.getAt k d name = .ok value := by
  have contains : (h.scope target).bindings.contains name = true := Table.contains_eq_true.2 ⟨value, bound⟩
  simp only [getAt, slotAt, ancestor, if_pos contains, Except.bind, bound]

/-! Properties of all functions. -/

/-- What holds of all functions, bound to names or not, and of all methods. -/
structure Holds (P : FunctionDecl → Prop) (h : Heap) : Prop where
  function : ∀ id, P (h.function id).decl
  method : ∀ {id name} {closure : Closure}, (h.cls id).methods.find? name = some closure → P closure.decl

namespace Holds

variable {P : FunctionDecl → Prop} {h : Heap}

theorem initial (absent : P default) : Holds P Heap.initial :=
  ⟨fun _ => absent, fun found => by cases found⟩

theorem imp {Q : FunctionDecl → Prop} (holds : Holds P h) (weaker : ∀ {decl}, P decl → Q decl) : Holds Q h :=
  ⟨fun id => weaker (holds.function id), fun found => weaker (holds.method found)⟩

/-- Scopes and instances hold no functions. -/
theorem congr (holds : Holds P h) (functions : h'.functions = h.functions) (classes : h'.classes = h.classes) :
    Holds P h' := by
  obtain ⟨scopes, _, _, instances⟩ := h'
  subst functions classes
  exact ⟨holds.function, holds.method⟩

theorem newFunction {closure : Closure} (holds : Holds P h) (new : P closure.decl) : Holds P (h.newFunction closure).2 := by
  refine ⟨fun id => ?_, holds.method⟩
  rw [function_newFunction]
  split
  · exact new
  · exact holds.function id

theorem newClass (holds : Holds P h)
    (new : ∀ {name} {closure : Closure}, c.methods.find? name = some closure → P closure.decl) : Holds P (h.newClass c).2 := by
  refine ⟨holds.function, fun {id name closure} found => ?_⟩
  rw [cls_newClass] at found
  split at found
  · exact new found
  · exact holds.method found

theorem method? {id : ClassId} {closure : Closure} (holds : Holds P h)
    (found : h.method? id name = some closure) : P closure.decl := by
  obtain ⟨_, own⟩ := exists_of_method? found
  exact holds.method own

end Holds
end Heap

namespace Evaluation

/-- What holds of the code that a call runs: of functions one thing, of methods still to be bound another. -/
def Callable.Holds (ofFunction ofMethod : Closure → Prop) : Callable → Prop
  | .clock | .construct _ none => True
  | .function closure => ofFunction closure
  | .construct _ (some closure) => ofMethod closure

theorem callable?_holds {ofFunction ofMethod : Closure → Prop} {h : Heap} (function : ∀ id, ofFunction (h.function id))
    (method : ∀ {id name} {closure : Closure}, (h.cls id).methods.find? name = some closure → ofMethod closure)
    (called : callable? h value = some callable) : callable.Holds ofFunction ofMethod := by
  cases value with
  | function id =>
    cases called
    exact function id
  | cls id =>
    cases called
    cases found : h.method? id Names.initializer with
    | none => trivial
    | some closure =>
      obtain ⟨_, own⟩ := Heap.exists_of_method? found
      exact method own
  | clock =>
    cases called
    trivial
  | _ => cases called

/-- The methods of a class are those it is declared with, in the scope that is made for them. -/
theorem mem_of_methodTable {methods : List FunctionDecl} {closure : Closure}
    (found : (methodTable home methods).find? name = some closure) :
    closure.decl ∈ methods ∧ closure.scope = home := by
  rcases Table.exists_of_find?_foldl found with before | ⟨decl, member, -, rfl⟩
  · cases before
  · exact ⟨member, rfl⟩

/-- Initializers are told by their name. -/
theorem isInitializer_of_methodTable {methods : List FunctionDecl} {closure : Closure}
    (found : (methodTable home methods).find? Names.initializer = some closure) : closure.isInitializer = true := by
  rcases Table.exists_of_find?_foldl found with before | ⟨decl, -, named, rfl⟩
  · cases before
  · exact decide_eq_true named

/-- Arguments are bound to parameters, and nothing else is. -/
theorem exists_of_bindParams {params : List Ident} {args : List Value}
    (found : (bindParams params args).find? name = some value) :
    (∃ param ∈ params, param.text = name) ∧ value ∈ args := by
  rcases Table.exists_of_find?_foldl (β := Ident × Value) found with before | ⟨pair, member, rfl, rfl⟩
  · cases before
  · exact ⟨⟨pair.1, (List.of_mem_zip member).1, rfl⟩, (List.of_mem_zip member).2⟩

end Evaluation
end Lox
