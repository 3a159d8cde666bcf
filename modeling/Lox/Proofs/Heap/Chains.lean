import Lox.Proofs.Heap

/-! Chains of scopes. A name is found in two ways: by looking for it outwards from scope to scope, or in the scope so many
steps out. Both come to the same scope where the number of steps is the least that leads to a binding. Scopes are
shared between chains; an assignment changes what is read from all those that come to its scope, and nothing else. -/
namespace Lox

namespace Heap

/-- Scopes as they come about: each is opened in one that exists or in none, and names are bound and bound anew. -/
inductive Forest : Heap → Prop where
  | bare (none : h.scopes = #[]) : Forest h
  | newScope (forest : Forest h) (bindings : Table Value) (inside : ∀ p, parent = some p → p < h.scopes.size) :
      Forest (h.newScope parent bindings).2
  | define (forest : Forest h) (k : ScopeId) (x : Text) (value : Value) : Forest (h.define k x value)
  | assign (forest : Forest h) (assigned : h.assign? k x value = some h') : Forest h'
  | assignAt (forest : Forest h) (assigned : h.assignAt k d x value = .ok h') : Forest h'

/-- The least distance at which the chain of a scope binds a name, and the scope that is there. -/
structure BoundAt (h : Heap) (e : ScopeId) (x : Text) (d : Nat) (k : ScopeId) : Prop where
  ancestor : h.ancestor? d e = some k
  bound : (h.find? k x).isSome
  least : ∀ d' < d, ∀ k', h.ancestor? d' e = some k' → h.find? k' x = none

/-- No scope of the chain binds the name. -/
def Unbound (h : Heap) (e : ScopeId) (x : Text) : Prop := ∀ d k, h.ancestor? d e = some k → h.find? k x = none

/-- One scope binds a name to another value; everything else is as it was. -/
structure Rebound (h : Heap) (k : ScopeId) (x : Text) (value : Value) (h' : Heap) : Prop where
  scopes : h'.scopes.size = h.scopes.size
  parent : ∀ j, (h'.scope j).parent = (h.scope j).parent
  find : ∀ j y, h'.find? j y = if j = k ∧ y = x then some value else h.find? j y
  functions : h'.functions = h.functions
  classes : h'.classes = h.classes
  instances : h'.instances = h.instances

/-! Looking outwards. -/

/-- How a name is looked for: in a scope, and if it is not bound there in the parent. -/
inductive Search (h : Heap) (x : Text) : ScopeId → Option ScopeId → Prop where
  | here (bound : (h.find? e x).isSome) : Search h x e (some e)
  | further (absent : h.find? e x = none) (parent : (h.scope e).parent = some p) (outer : Search h x p found) :
      Search h x e found
  | nowhere (absent : h.find? e x = none) (root : (h.scope e).parent = none) : Search h x e none

variable {h h' : Heap} {e k j : ScopeId} {x y : Text} {value : Value}

/-- Every scope is younger than its parent. -/
def Aged (h : Heap) : Prop := ∀ e p, (h.scope e).parent = some p → p < e

/-- The search for a name has enough steps to come to its end. -/
theorem Aged.search (aged : h.Aged) (e : ScopeId) (x : Text) : h.Search x e (h.owner? e x) := by
  suffices along : ∀ n e, e < n → h.Search x e (h.ownerWithin x n e) from along _ _ (Nat.lt_succ_self e)
  intro n
  induction n with
  | zero => exact fun _ below => absurd below (Nat.not_lt_zero _)
  | succ n ih =>
    intro e below
    rw [ownerWithin]
    by_cases bound : (h.scope e).bindings.contains x = true
    · rw [if_pos bound]
      exact .here bound
    · rw [if_neg bound]
      have absent : h.find? e x = none := Table.find?_of_absent (Bool.eq_false_iff.2 bound)
      cases parent : (h.scope e).parent with
      | none => exact .nowhere absent parent
      | some p =>
        have above : p < n := Nat.lt_of_lt_of_le (aged e p parent) (Nat.lt_succ_iff.1 below)
        exact .further absent parent (ih p above)

theorem ancestor?_succ (parent : (h.scope e).parent = some p) (d : Nat) : h.ancestor? (d + 1) e = h.ancestor? d p := by
  rw [ancestor?, parent]

/-- Where a search ends is the least distance to a binding. -/
theorem Search.boundAt (search : h.Search x e (some k)) : ∃ d, h.BoundAt e x d k := by
  generalize shape : some k = found at search
  induction search with
  | here bound =>
    cases shape
    exact ⟨0, rfl, bound, fun d' below => absurd below (Nat.not_lt_zero _)⟩
  | further absent parent _ ih =>
    obtain ⟨d, ancestor, bound, least⟩ := ih shape
    refine ⟨d + 1, (ancestor?_succ parent d).trans ancestor, bound, fun d' below k' outwards => ?_⟩
    cases d' with
    | zero =>
      cases outwards
      exact absent
    | succ d' => exact least d' (Nat.lt_of_succ_lt_succ below) k' ((ancestor?_succ parent d').symm.trans outwards)
  | nowhere => cases shape

private theorem Search.unbound (search : h.Search x e none) : h.Unbound e x := by
  generalize shape : none = found at search
  induction search with
  | here => cases shape
  | further absent parent _ ih =>
    intro d k outwards
    cases d with
    | zero =>
      cases outwards
      exact absent
    | succ d => exact ih shape d k ((ancestor?_succ parent d).symm.trans outwards)
  | nowhere absent root =>
    intro d k outwards
    cases d with
    | zero =>
      cases outwards
      exact absent
    | succ d =>
      rw [ancestor?, root] at outwards
      cases outwards

private theorem BoundAt.unique (one : h.BoundAt e x d k) (other : h.BoundAt e x d' k') : k = k' := by
  have not_before : ∀ {d k d' k'}, h.BoundAt e x d k → h.BoundAt e x d' k' → ¬ d < d' := by
    intro d k d' k' near far below
    have bound := near.bound
    rw [far.least d below k near.ancestor] at bound
    cases bound
  have same : d = d' := Nat.le_antisymm (Nat.not_lt.1 (not_before other one)) (Nat.not_lt.1 (not_before one other))
  subst same
  exact Option.some.inj (one.ancestor.symm.trans other.ancestor)

private theorem BoundAt.not_unbound (bound : h.BoundAt e x d k) : ¬ h.Unbound e x := by
  intro unbound
  have bound' := bound.bound
  rw [unbound d k bound.ancestor] at bound'
  cases bound'

/-- The search by name comes to the nearest binding. -/
theorem Aged.owner?_eq_some (aged : h.Aged) : h.owner? e x = some k ↔ ∃ d, h.BoundAt e x d k := by
  have search := aged.search e x
  constructor
  · intro owner
    rw [owner] at search
    exact search.boundAt
  · rintro ⟨d, bound⟩
    cases owner : h.owner? e x with
    | none =>
      rw [owner] at search
      exact absurd search.unbound bound.not_unbound
    | some k' =>
      rw [owner] at search
      obtain ⟨d', bound'⟩ := search.boundAt
      rw [bound'.unique bound]

private theorem Aged.owner?_eq_none (aged : h.Aged) : h.owner? e x = none ↔ h.Unbound e x := by
  have search := aged.search e x
  constructor
  · intro owner
    rw [owner] at search
    exact search.unbound
  · intro unbound
    cases owner : h.owner? e x with
    | none => rfl
    | some k =>
      obtain ⟨d, bound⟩ := aged.owner?_eq_some.1 owner
      exact absurd unbound bound.not_unbound

private theorem Aged.get?_eq (aged : h.Aged) (bound : h.BoundAt e x d k) : h.get? e x = h.find? k x := by
  rw [get?, aged.owner?_eq_some.2 ⟨d, bound⟩]
  rfl

private theorem Aged.get?_eq_none (aged : h.Aged) (unbound : h.Unbound e x) : h.get? e x = none := by
  rw [get?, aged.owner?_eq_none.2 unbound]
  rfl

private theorem BoundAt.slotAt (bound : h.BoundAt e x d k) : h.slotAt e d x = .ok k := by
  have contains : (h.scope k).bindings.contains x = true := bound.bound
  simp only [Heap.slotAt, bound.ancestor, if_pos contains]

/-! Binding names anew. -/

private theorem parent_define (h : Heap) (k : ScopeId) (x : Text) (value : Value) (j : ScopeId) :
    ((h.define k x value).scope j).parent = (h.scope j).parent := by
  simp only [define, scope, Array.getElem?_modify]
  by_cases here : k = j
  · rw [if_pos here]
    cases h.scopes[j]? <;> rfl
  · rw [if_neg here]

private theorem Rebound.define (bound : (h.find? k x).isSome) (value : Value) :
    h.Rebound k x value (h.define k x value) := by
  have inside : k < h.scopes.size := inside_of_contains bound
  refine ⟨size_define .., parent_define h k x value, fun j y => ?_, rfl, rfl, rfl⟩
  rw [find?, scope_define h inside]
  by_cases here : j = k
  · rw [if_pos here, Table.find?_insert, here]
    by_cases same : x = y
    · rw [if_pos same, if_pos ⟨rfl, same.symm⟩]
    · rw [if_neg same, if_neg fun both => same both.2.symm]
      rfl
  · rw [if_neg here, if_neg fun both => here both.1]
    rfl

private theorem ancestor?_congr (parents : ∀ j, (h'.scope j).parent = (h.scope j).parent) (d : Nat) (e : ScopeId) :
    h'.ancestor? d e = h.ancestor? d e := by
  induction d generalizing e with
  | zero => rfl
  | succ d ih =>
    rw [ancestor?, ancestor?, parents]
    cases (h.scope e).parent with
    | none => rfl
    | some p => exact ih p

namespace Rebound

private theorem find?_eq_none (rebound : h.Rebound k x value h') (bound : (h.find? k x).isSome) :
    h'.find? j y = none ↔ h.find? j y = none := by
  rw [rebound.find]
  by_cases here : j = k ∧ y = x
  · obtain ⟨rfl, rfl⟩ := here
    rw [if_pos ⟨rfl, rfl⟩]
    constructor
    · nofun
    · intro absent
      rw [absent] at bound
      cases bound
  · rw [if_neg here]

/-- Names are bound where they were before. -/
theorem boundAt_iff (rebound : h.Rebound k x value h') (bound : (h.find? k x).isSome) :
    h'.BoundAt e y d j ↔ h.BoundAt e y d j := by
  have chains := ancestor?_congr rebound.parent
  have absent : ∀ {j y}, h'.find? j y = none ↔ h.find? j y = none := rebound.find?_eq_none bound
  have present : ∀ {j y}, (h'.find? j y).isSome ↔ (h.find? j y).isSome := by
    intro j y
    rw [Option.isSome_iff_ne_none, Option.isSome_iff_ne_none, ne_eq, absent]
  constructor
  · rintro ⟨ancestor, there, least⟩
    refine ⟨(chains d e).symm.trans ancestor, present.1 there, fun d' below k' outwards => ?_⟩
    exact absent.1 (least d' below k' ((chains d' e).trans outwards))
  · rintro ⟨ancestor, there, least⟩
    refine ⟨(chains d e).trans ancestor, present.2 there, fun d' below k' outwards => ?_⟩
    exact absent.2 (least d' below k' ((chains d' e).symm.trans outwards))

private theorem aged (rebound : h.Rebound k x value h') (aged : h.Aged) : h'.Aged := by
  intro e p parent
  exact aged e p ((rebound.parent e).symm.trans parent)

/-- What is read after an assignment: the new value by all whose nearest binding is the one that has changed, and what
was read before by all others. -/
theorem get? (rebound : h.Rebound k x value h') (bound : (h.find? k x).isSome) (aged : h.Aged) (e : ScopeId)
    (y : Text) :
    (y = x ∧ (∃ d, h.BoundAt e y d k) → h'.get? e y = some value) ∧
      (¬ (y = x ∧ ∃ d, h.BoundAt e y d k) → h'.get? e y = h.get? e y) := by
  have aged' := rebound.aged aged
  constructor
  · rintro ⟨rfl, d, near⟩
    rw [aged'.get?_eq ((rebound.boundAt_iff bound).2 near), rebound.find, if_pos ⟨rfl, rfl⟩]
  · intro other
    cases owner : h.owner? e y with
    | none =>
      have unbound := aged.owner?_eq_none.1 owner
      rw [aged.get?_eq_none unbound, aged'.get?_eq_none]
      intro d j outwards
      exact (rebound.find?_eq_none bound).2 (unbound d j ((ancestor?_congr rebound.parent d e).symm.trans outwards))
    | some j =>
      obtain ⟨d, near⟩ := aged.owner?_eq_some.1 owner
      have apart : ¬ (j = k ∧ y = x) := by
        rintro ⟨rfl, rfl⟩
        exact other ⟨rfl, d, near⟩
      rw [aged.get?_eq near, aged'.get?_eq ((rebound.boundAt_iff bound).2 near), rebound.find, if_neg apart]

end Rebound

/-- An assignment by name binds the name anew where it is bound. -/
theorem exists_of_assign? (assigned : h.assign? e x value = some h') : ∃ k, h' = h.define k x value := by
  obtain ⟨k, -, made⟩ := Option.map_eq_some_iff.1 assigned
  exact ⟨k, made.symm⟩

private theorem exists_of_assignAt (assigned : h.assignAt e d x value = .ok h') : ∃ k, h' = h.define k x value := by
  rw [assignAt] at assigned
  cases slot : h.slotAt e d x with
  | error b =>
    rw [slot] at assigned
    cases assigned
  | ok k =>
    rw [slot] at assigned
    cases assigned
    exact ⟨k, rfl⟩

/-- In a forest every scope is younger than its parent. -/
theorem Forest.aged (forest : Forest h) : h.Aged := by
  have defined : ∀ {h : Heap} {k x value}, h.Aged → (h.define k x value).Aged := by
    intro h k x value aged e p parent
    exact aged e p ((parent_define h k x value e).symm.trans parent)
  induction forest with
  | @bare h none =>
    intro e p parent
    rw [scope, none] at parent
    cases parent
  | @newScope h parent _ bindings inside ih =>
    intro e p outer
    rw [scope_newScope] at outer
    by_cases new : e = h.scopes.size
    · rw [if_pos new] at outer
      rw [new]
      exact inside p outer
    · rw [if_neg new] at outer
      exact ih e p outer
  | define _ k x value ih => exact defined ih
  | assign _ assigned ih =>
    obtain ⟨k, rfl⟩ := exists_of_assign? assigned
    exact defined ih
  | assignAt _ assigned ih =>
    obtain ⟨k, rfl⟩ := exists_of_assignAt assigned
    exact defined ih

end Heap

/-! Reading and assigning in a running program. -/

namespace Evaluation

variable {s t : State} {e k : ScopeId} {x y : Ident} {value : Value}

/-- Reads a name from the nearest scope that binds it, from a given one on. -/
def readFrom (scope : ScopeId) (name : Ident) : Eval Value := fun s =>
  match s.heap.get? scope name.text with
  | some value => .ok value s
  | none => fault (.undefinedVariable name.text) name s

/-- Assigns to a name in the nearest scope that binds it, from a given one on. -/
def assignFrom (scope : ScopeId) (name : Ident) (value : Value) : Eval Unit := fun s =>
  match s.heap.assign? scope name.text value with
  | some heap => .ok () { s with heap }
  | none => fault (.undefinedVariable name.text) name s

/-- Assigns to a name in the scope at a distance, which has to bind it. -/
def assignAt (scope : ScopeId) (distance : Nat) (name : Ident) (value : Value) : Eval Unit := fun s =>
  match s.heap.assignAt scope distance name.text value with
  | .ok heap => .ok () { s with heap }
  | .error b => .error (.breach b) s

/-- Variables are read at their distance, or else by name from the globals on. -/
theorem readVariable_eq (ctx : Context) (id : NodeId) (x : Ident) (s : State) :
    (∀ d, ctx.locals[id]? = some d → readVariable ctx id x s = readAt s.scope d x.text s) ∧
      (ctx.locals[id]? = none → readVariable ctx id x s = readFrom Heap.globals x s) := by
  constructor
  · intro d recorded
    rw [readVariable, recorded]
  · intro unrecorded
    rw [readVariable, unrecorded]
    rfl

/-- So are they assigned to. -/
theorem assignVariable_eq (ctx : Context) (ref : Reference) (value : Value) (s : State) :
    (∀ d, ctx.locals[ref.id]? = some d → assignVariable ctx ref value s = assignAt s.scope d ref.name value s) ∧
      (ctx.locals[ref.id]? = none → assignVariable ctx ref value s = assignFrom Heap.globals ref.name value s) := by
  constructor
  · intro d recorded
    simp only [assignVariable, recorded, assignAt, Heap.assignAt]
    cases s.heap.slotAt s.scope d ref.name.text with
    | error b => rfl
    | ok target => rfl
  · intro unrecorded
    simp only [assignVariable, unrecorded, assignFrom, Heap.assign?]
    cases s.heap.owner? Heap.globals ref.name.text with
    | none => rfl
    | some target => rfl

private theorem readFrom_eq_ok (found : s.heap.get? e x.text = some value) : readFrom e x s = .ok value s := by
  rw [readFrom, found]

private theorem readFrom_eq_fault (absent : s.heap.get? e x.text = none) :
    readFrom e x s = .error (.fault ⟨.undefinedVariable x.text, x⟩) s := by
  rw [readFrom, absent]
  rfl

/-- Reading a name comes to the same, be it a value or a fault. -/
def SameReading (e : ScopeId) (x : Ident) (s t : State) : Prop :=
  (∀ value, readFrom e x t = .ok value t ↔ readFrom e x s = .ok value s) ∧
    ∀ stop, readFrom e x t = .error stop t ↔ readFrom e x s = .error stop s

private theorem sameReading_of_get? (same : t.heap.get? e x.text = s.heap.get? e x.text) : SameReading e x s t := by
  cases found : s.heap.get? e x.text with
  | none =>
    rw [found] at same
    simp [SameReading, readFrom_eq_fault found, readFrom_eq_fault same]
  | some value =>
    rw [found] at same
    simp [SameReading, readFrom_eq_ok found, readFrom_eq_ok same]

/-- The laws of chains of scopes. Where `d` is the least distance at which the chain of a scope binds a name, reading by
name and reading at that distance yield the same value, and both ways to assign make the same change: that one scope
binds that name to the new value, and no other binding of any scope changes. So whoever reads a name afterwards, from
wherever, reads the new value if its nearest binding is that one, and what it was before otherwise. Where no scope of
the chain binds the name, reading and assigning are faults that blame it as undefined, and the state is as it was. It
is so too after an assignment at a distance that does not find the name. Variables of programs are read and assigned in
these ways. -/
theorem chains_of_scopes_agree (forest : Heap.Forest s.heap) (e : ScopeId) (x : Ident) :
    (∀ d k, s.heap.BoundAt e x.text d k →
      (∃ value, readFrom e x s = .ok value s ∧ readAt e d x.text s = .ok value s) ∧
      ∀ value, ∃ heap, assignFrom e x value s = .ok () { s with heap } ∧
        assignAt e d x value s = .ok () { s with heap } ∧ s.heap.Rebound k x.text value heap ∧
        ∀ e' y, (y.text = x.text ∧ (∃ d', s.heap.BoundAt e' y.text d' k) →
            readFrom e' y { s with heap } = .ok value { s with heap }) ∧
          (¬ (y.text = x.text ∧ ∃ d', s.heap.BoundAt e' y.text d' k) → SameReading e' y s { s with heap })) ∧
    (s.heap.Unbound e x.text →
      readFrom e x s = .error (.fault ⟨.undefinedVariable x.text, x⟩) s ∧
      ∀ value, assignFrom e x value s = .error (.fault ⟨.undefinedVariable x.text, x⟩) s) ∧
    (∀ d value stop t, assignAt e d x value s = .error stop t → t = s) ∧
    ∀ ctx id value,
      (∀ d, ctx.locals[id]? = some d → readVariable ctx id x s = readAt s.scope d x.text s ∧
        assignVariable ctx ⟨id, x⟩ value s = assignAt s.scope d x value s) ∧
      (ctx.locals[id]? = none → readVariable ctx id x s = readFrom Heap.globals x s ∧
        assignVariable ctx ⟨id, x⟩ value s = assignFrom Heap.globals x value s) := by
  have aged := forest.aged
  refine ⟨fun d k bound => ⟨?_, fun value => ?_⟩, fun unbound => ⟨?_, fun value => ?_⟩, ?_, fun ctx id value => ?_⟩
  · obtain ⟨value, held⟩ := Option.isSome_iff_exists.1 bound.bound
    refine ⟨value, readFrom_eq_ok ((aged.get?_eq bound).trans held), ?_⟩
    rw [readAt, Heap.getAt_of_find? bound.ancestor held]
  · have rebound := Heap.Rebound.define bound.bound value
    refine ⟨s.heap.define k x.text value, ?_, ?_, rebound, fun e' y => ?_⟩
    · rw [assignFrom, Heap.assign?, aged.owner?_eq_some.2 ⟨d, bound⟩]
      rfl
    · rw [assignAt, Heap.assignAt, bound.slotAt]
      rfl
    · obtain ⟨new, old⟩ := rebound.get? bound.bound aged e' y.text
      exact ⟨fun here => readFrom_eq_ok (new here), fun other => sameReading_of_get? (old other)⟩
  · exact readFrom_eq_fault (aged.get?_eq_none unbound)
  · rw [assignFrom, Heap.assign?, aged.owner?_eq_none.2 unbound]
    rfl
  · intro d value stop t failed
    rw [assignAt] at failed
    split at failed
    · cases failed
    · cases failed
      rfl
  · obtain ⟨readLocal, readGlobal⟩ := readVariable_eq ctx id x s
    obtain ⟨assignLocal, assignGlobal⟩ := assignVariable_eq ctx ⟨id, x⟩ value s
    exact ⟨fun d recorded => ⟨readLocal d recorded, assignLocal d recorded⟩,
      fun unrecorded => ⟨readGlobal unrecorded, assignGlobal unrecorded⟩⟩

/-- A global that one of two inner scopes hides: assigned to from the other one, two steps in, it changes for the scope
between, and what is hidden stays hidden. -/
theorem chains_of_scopes_agree_when_hidden :
    let a : Ident := ⟨Text.ofString "a", 1⟩
    let root := (Heap.empty.newScope none [(a.text, .bool true)]).2
    let inner := (((root.newScope (some 0) []).2.newScope (some 1) [(a.text, .nil)]).2.newScope (some 1) []).2
    let s := State.start inner 0
    Heap.Forest s.heap ∧ s.heap.BoundAt 3 a.text 2 0 ∧
      ∃ heap, assignFrom 3 a (.bool false) s = .ok () { s with heap } ∧
        readFrom 1 a { s with heap } = .ok (.bool false) { s with heap } ∧
        readFrom 2 a { s with heap } = .ok .nil { s with heap } := by
  intro a root inner s
  have forest : Heap.Forest s.heap := by
    have first : Heap.Forest root := .newScope (.bare rfl) _ nofun
    have second : Heap.Forest (root.newScope (some 0) []).2 := first.newScope _ (by rintro _ ⟨⟩; decide)
    have third : Heap.Forest ((root.newScope (some 0) []).2.newScope (some 1) [(a.text, .nil)]).2 :=
      second.newScope _ (by rintro _ ⟨⟩; decide)
    exact third.newScope _ (by rintro _ ⟨⟩; decide)
  have far : s.heap.BoundAt 3 a.text 2 0 := by
    refine ⟨rfl, rfl, fun d' below k' outwards => ?_⟩
    obtain rfl | rfl : d' = 0 ∨ d' = 1 := by omega
    · cases outwards
      rfl
    · cases outwards
      rfl
  have between : s.heap.BoundAt 1 a.text 1 0 := by
    refine ⟨rfl, rfl, fun d' below k' outwards => ?_⟩
    obtain rfl : d' = 0 := by omega
    cases outwards
    rfl
  have hidden : s.heap.BoundAt 2 a.text 0 2 := ⟨rfl, rfl, fun d' below => absurd below (Nat.not_lt_zero _)⟩
  obtain ⟨laws, -⟩ := chains_of_scopes_agree forest 3 a
  obtain ⟨heap, assigned, -, -, after⟩ := (laws 2 0 far).2 (.bool false)
  refine ⟨forest, far, heap, assigned, (after 1 a).1 ⟨rfl, 1, between⟩, ?_⟩
  have other : ¬ (a.text = a.text ∧ ∃ d', s.heap.BoundAt 2 a.text d' 0) := by
    rintro ⟨-, d', near⟩
    cases near.unique hidden
  exact (((after 2 a).2 other).1 .nil).2 rfl

end Evaluation
end Lox
