import Lox.Proofs.Heap
import Lox.Proofs.Resolution.Mentions

/-! Heaps whose scopes keep to their declarations: a local scope binds no name that the program does not
declare in it. From where a mention is clear, the search for its name through the scopes comes to the scope
that resolution has found for it. -/
namespace Lox.Declared

/-- The local scopes from a scope outwards declare these names, where `ν` has the names that each scope declares.
The globals lie outside all of them. -/
inductive Chain (h : Heap) (ν : List (List Text)) : ScopeId → List (List Text) → Prop where
  | globals : Chain h ν Heap.globals []
  | inner (parent : (h.scope k).parent = some p) (older : p < k) (declares : ν[k]? = some names)
      (outer : Chain h ν p Δ) : Chain h ν k (names :: Δ)

/-- Scopes keep their parents and their declarations. -/
structure Grows (h : Heap) (ν : List (List Text)) (h' : Heap) (μ : List (List Text)) : Prop where
  declares : ∀ {k : ScopeId} {names}, ν[k]? = some names → μ[k]? = some names
  parent : ∀ {k : ScopeId} {names}, ν[k]? = some names → (h'.scope k).parent = (h.scope k).parent

theorem Grows.refl : Grows h ν h ν := ⟨id, fun _ => rfl⟩

theorem Grows.trans (first : Grows h ν h' μ) (second : Grows h' μ h'' κ) : Grows h ν h'' κ :=
  ⟨second.declares ∘ first.declares,
    fun known => (second.parent (first.declares known)).trans (first.parent known)⟩

theorem Grows.of_scopes (scopes : h'.scopes = h.scopes) : Grows h ν h' ν :=
  ⟨id, fun {k _} _ => congrArg Scope.parent (by rw [Heap.scope, scopes, Heap.scope])⟩

theorem Chain.grow (chain : Chain h ν k Δ) (grows : Grows h ν h' μ) : Chain h' μ k Δ := by
  induction chain with
  | globals => exact .globals
  | inner parent older declares _ ih =>
    exact .inner ((grows.parent declares).trans parent) older (grows.declares declares) ih

/-- A function that stands where all its mentions are good, once the scopes of its own are around it. -/
def Placed (P : Mention → Prop) (h : Heap) (ν : List (List Text)) (own : List (List Text)) (c : Closure) : Prop :=
  ∃ Δ, Chain h ν c.scope Δ ∧ ∀ m ∈ c.decl.mentions (own ++ Δ), P m

theorem Placed.grow (placed : Placed P h ν own c) (grows : Grows h ν h' μ) : Placed P h' μ own c := by
  obtain ⟨Δ, chain, good⟩ := placed
  exact ⟨Δ, chain.grow grows, good⟩

/-- A heap in which no local scope binds more than it declares and all functions are well placed. Methods stand
in a scope that has `this`, which there will be once they are bound. -/
structure Orderly (P : Mention → Prop) (ν : List (List Text)) (h : Heap) : Prop where
  size : ν.length = h.scopes.size
  inhabited : 0 < ν.length
  outermost : (h.scope Heap.globals).parent = none
  binds : ∀ {k names name}, k ≠ Heap.globals → ν[k]? = some names →
    (h.scope k).bindings.contains name = true → name ∈ names
  function : ∀ id, Placed P h ν [] (h.function id)
  method : ∀ {id name} {closure : Closure}, (h.cls id).methods.find? name = some closure →
    Placed P h ν [[Names.this]] closure

theorem Chain.inside (chain : Chain h ν k Δ) (inhabited : 0 < ν.length) : k < ν.length := by
  cases chain with
  | globals => exact inhabited
  | inner _ _ declares => exact (List.getElem?_eq_some_iff.1 declares).1

theorem Chain.head? (chain : Chain h ν k Δ) (apart : k ≠ Heap.globals) (declares : ν[k]? = some names) :
    Δ.head? = some names := by
  cases chain with
  | globals => exact absurd rfl apart
  | inner _ _ known => exact known.symm.trans declares

namespace Orderly

variable {P : Mention → Prop} {ν : List (List Text)} {h : Heap}

theorem initial (P : Mention → Prop) : Orderly P [[]] Heap.initial := by
  refine ⟨rfl, Nat.zero_lt_one, rfl, ?_, ?_, ?_⟩
  · intro k names name apart known
    cases k with
    | zero => exact absurd rfl apart
    | succ k => simp at known
  · exact fun _ => ⟨[], .globals, fun _ member => by cases member⟩
  · intro id name c found
    cases found

theorem imp {Q : Mention → Prop} (orderly : Orderly P ν h) (weaker : ∀ m, P m → Q m) : Orderly Q ν h := by
  have code : ∀ {own c}, Placed P h ν own c → Placed Q h ν own c := by
    rintro own c ⟨Δ, chain, good⟩
    exact ⟨Δ, chain, fun m member => weaker m (good m member)⟩
  exact { orderly with
    function := fun id => code (orderly.function id), method := fun found => code (orderly.method found) }

/-- Functions and methods stay well placed as scopes are added and bind new names. -/
theorem ofScopes (orderly : Orderly P ν h) (grows : Grows h ν h' μ) (functions : h'.functions = h.functions)
    (classes : h'.classes = h.classes) (size : μ.length = h'.scopes.size) (inhabited : 0 < μ.length)
    (outermost : (h'.scope Heap.globals).parent = none)
    (binds : ∀ {k names name}, k ≠ Heap.globals → μ[k]? = some names →
      (h'.scope k).bindings.contains name = true → name ∈ names) : Orderly P μ h' := by
  refine ⟨size, inhabited, outermost, binds, fun id => ?_, fun {id name c} found => ?_⟩
  · rw [Heap.function, functions]
    exact (orderly.function id).grow grows
  · rw [Heap.cls, classes] at found
    exact (orderly.method found).grow grows

/-- Instances are not part of it. -/
theorem withInstances (orderly : Orderly P ν h) (instances : Array Instance) :
    Orderly P ν { h with instances } :=
  orderly.ofScopes (.of_scopes rfl) rfl rfl orderly.size orderly.inhabited orderly.outermost orderly.binds

theorem newScope (orderly : Orderly P ν h) (binds : ∀ name, Table.contains bindings name = true → name ∈ names)
    (parent : ScopeId) : Grows h ν (h.newScope (some parent) bindings).2 (ν ++ [names]) ∧
      Orderly P (ν ++ [names]) (h.newScope (some parent) bindings).2 := by
  have grows : Grows h ν (h.newScope (some parent) bindings).2 (ν ++ [names]) := by
    constructor
    · intro k _ known
      rw [List.getElem?_append_left (List.getElem?_eq_some_iff.1 known).1, known]
    · intro k _ known
      have apart : k ≠ h.scopes.size := orderly.size ▸ Nat.ne_of_lt (List.getElem?_eq_some_iff.1 known).1
      rw [Heap.scope_newScope, if_neg apart]
  have last : Heap.globals ≠ h.scopes.size := Nat.ne_of_lt (orderly.size ▸ orderly.inhabited)
  refine ⟨grows, orderly.ofScopes grows rfl rfl ?_ ?_ ?_ ?_⟩
  · rw [List.length_append, orderly.size, Heap.newScope, Array.size_push]
    rfl
  · rw [List.length_append]
    exact Nat.lt_add_left _ Nat.zero_lt_one
  · rw [Heap.scope_newScope, if_neg last]
    exact orderly.outermost
  · intro k known name apart declares bound
    rw [Heap.scope_newScope] at bound
    by_cases new : k = h.scopes.size
    · rw [if_pos new] at bound
      rw [new, ← orderly.size, List.getElem?_concat_length] at declares
      cases declares
      exact binds name bound
    · rw [if_neg new] at bound
      have range := (List.getElem?_eq_some_iff.1 declares).1
      rw [List.length_append, List.length_singleton, orderly.size] at range
      have older : k < ν.length := orderly.size ▸ Nat.lt_of_le_of_ne (Nat.lt_succ_iff.1 range) new
      rw [List.getElem?_append_left older] at declares
      exact orderly.binds apart declares bound

theorem chain_newScope (orderly : Orderly P ν h) (chain : Chain h ν parent Δ)
    (grows : Grows h ν (h.newScope (some parent) bindings).2 (ν ++ [names])) :
    Chain (h.newScope (some parent) bindings).2 (ν ++ [names]) h.scopes.size (names :: Δ) := by
  refine .inner ?_ (orderly.size ▸ chain.inside orderly.inhabited) ?_ (chain.grow grows)
  · rw [Heap.scope_newScope, if_pos rfl]
  · rw [← orderly.size, List.getElem?_concat_length]

/-- A name is bound that the scope declares, or a global. -/
theorem define (orderly : Orderly P ν h) {k : ScopeId} {name : Text} (inside : k < h.scopes.size)
    (declared : k ≠ Heap.globals → ∀ names, ν[k]? = some names → name ∈ names) (value : Value) :
    Grows h ν (h.define k name value) ν ∧ Orderly P ν (h.define k name value) := by
  have same : ∀ other, ((h.define k name value).scope other).parent = (h.scope other).parent := by
    intro other
    rw [Heap.scope_define h inside]
    by_cases here : other = k
    · rw [if_pos here, here]
    · rw [if_neg here]
  have grows : Grows h ν (h.define k name value) ν := ⟨id, fun _ => same _⟩
  refine ⟨grows, orderly.ofScopes grows rfl rfl ?_ orderly.inhabited ((same _).trans orderly.outermost) ?_⟩
  · rw [Heap.size_define, orderly.size]
  · intro other names bound apart declares contains
    rw [Heap.scope_define h inside] at contains
    by_cases here : other = k
    · subst here
      rw [if_pos rfl, Table.contains_insert, Bool.or_eq_true, decide_eq_true_eq] at contains
      rcases contains with rfl | before
      · exact declared apart names declares
      · exact orderly.binds apart declares before
    · rw [if_neg here] at contains
      exact orderly.binds apart declares contains

theorem newFunction (orderly : Orderly P ν h) (placed : Placed P h ν [] c) : Orderly P ν (h.newFunction c).2 := by
  have grows : Grows h ν (h.newFunction c).2 ν := .of_scopes rfl
  refine { orderly with function := fun id => ?_, method := fun found => (orderly.method found).grow grows }
  rw [Heap.function_newFunction]
  split
  · exact placed.grow grows
  · exact (orderly.function id).grow grows

theorem newClass (orderly : Orderly P ν h) {c : Class} (placed : ∀ {name} {closure : Closure},
    c.methods.find? name = some closure → Placed P h ν [[Names.this]] closure) :
    Orderly P ν (h.newClass c).2 := by
  have grows : Grows h ν (h.newClass c).2 ν := .of_scopes rfl
  refine { orderly with function := fun id => (orderly.function id).grow grows, method := fun {id _ _} found => ?_ }
  rw [Heap.cls_newClass] at found
  split at found
  · exact (placed found).grow grows
  · exact (orderly.method found).grow grows

theorem method? {id : ClassId} {closure : Closure} (orderly : Orderly P ν h)
    (found : h.method? id name = some closure) : Placed P h ν [[Names.this]] closure := by
  obtain ⟨_, own⟩ := Heap.exists_of_method? found
  exact orderly.method own

end Orderly

/-! Looking up names. -/

private theorem owner?_of_slotAt_zero {h : Heap} (found : h.slotAt k 0 name = .ok target) :
    h.owner? k name = some target := by
  rw [Heap.slotAt, Heap.ancestor?] at found
  simp only at found
  split at found
  · rename_i bound
    cases found
    rw [Heap.owner?, Heap.ownerWithin, if_pos bound]
  · cases found

section

variable {P : Mention → Prop} {ν : List (List Text)} {h : Heap} (orderly : Orderly P ν h)

include orderly

/-- A scope that does not declare a name does not bind it. -/
theorem unbound (declares : ν[k]? = some names) (older : p < k) (absent : name ∉ names) :
    ¬ (h.scope k).bindings.contains name = true :=
  fun bound => absent (orderly.binds (Nat.ne_of_gt (Nat.zero_lt_of_lt older)) declares bound)

/-- The search has enough steps: a chain is no longer than the position of its scope. -/
theorem ownerWithin_eq (chain : Chain h ν k Δ) (name : Text) (enough : k < n) :
    h.ownerWithin name n k = h.owner? k name := by
  -- for every `n`, because `owner?` itself goes on in the parent with some number that is enough
  induction chain generalizing n with
  | globals =>
    cases n with
    | zero => cases enough
    | succ n => simp only [Heap.owner?, Heap.ownerWithin, orderly.outermost]
  | @inner k p names Δ parent older declares outer ih =>
    cases n with
    | zero => cases enough
    | succ n =>
      simp only [Heap.owner?, Heap.ownerWithin, parent]
      rw [ih (Nat.lt_of_lt_of_le older (Nat.lt_succ_iff.1 enough)), ih older]

private theorem owner?_inner (parent : (h.scope k).parent = some p) (older : p < k) (declares : ν[k]? = some names)
    (outer : Chain h ν p Δ) (absent : name ∉ names) : h.owner? k name = h.owner? p name := by
  have unbound := unbound orderly declares older absent
  rw [Heap.owner?, Heap.ownerWithin, if_neg unbound]
  simp only [parent]
  exact ownerWithin_eq orderly outer name older

/-- A name that no local scope declares is looked up among the globals. -/
theorem owner?_of_passed (chain : Chain h ν k Δ) (absent : ∀ names ∈ Δ, name ∉ names) :
    h.owner? k name = h.owner? Heap.globals name := by
  induction chain with
  | globals => rfl
  | inner parent older declares outer ih =>
    rw [List.forall_mem_cons] at absent
    rw [owner?_inner orderly parent older declares outer absent.1, ih absent.2]

/-- A name that no nearer scope declares is found at its distance. -/
theorem owner?_of_slotAt (chain : Chain h ν k Δ) (absent : ∀ names ∈ Δ.take d, name ∉ names)
    (found : h.slotAt k d name = .ok target) : h.owner? k name = some target := by
  induction chain generalizing d with
  | globals =>
    cases d with
    | zero => exact owner?_of_slotAt_zero found
    | succ d =>
      rw [Heap.slotAt, Heap.ancestor?, orderly.outermost] at found
      cases found
  | inner parent older declares outer ih =>
    cases d with
    | zero => exact owner?_of_slotAt_zero found
    | succ d =>
      rw [List.take_succ_cons, List.forall_mem_cons] at absent
      rw [Heap.slotAt, Heap.ancestor?, parent] at found
      rw [owner?_inner orderly parent older declares outer absent.1]
      exact ih absent.2 found

end

end Lox.Declared
