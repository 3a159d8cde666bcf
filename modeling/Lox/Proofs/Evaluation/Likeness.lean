import Lox.Evaluation
import Lox.Proofs.Heap
import Lox.Proofs.Resolution.Scoping

/-! Two programs that differ in what a run cannot see: the identities of nodes, lines, and the names of
local variables, which each scope may rename in its own way. `Alike` relates such trees, and from it
follows when two heaps are alike. The layers of a place in the code say, for each local scope around
it, how its names read on the other side and which of them it is sure to bind. -/
namespace Lox.Likeness

/-- A local scope: its names on the other side, and its own names, marked with whether they are sure
to be bound. -/
structure Layer where
  spelling : Renaming
  names : Table Bool

def Layer.Binds (layer : Layer) (name : Text) : Prop := layer.names.find? name = some true

def thisLayer : Layer := ⟨.same, thisScope⟩

def superLayer : Layer := ⟨.same, superScope⟩

theorem thisLayer_binds : thisLayer.Binds name ↔ Names.this = name := by
  rw [Layer.Binds, thisLayer, thisScope, Table.find?_single]
  split <;> simp_all

theorem superLayer_binds : superLayer.Binds name ↔ Names.super = name := by
  rw [Layer.Binds, superLayer, superScope, Table.find?_single]
  split <;> simp_all

/-- The local scopes around a place, the innermost first. -/
abbrev Layers := List Layer

namespace Layers

/-- How the innermost scope renames. Globals keep their names. -/
def spelling : Layers → Renaming
  | [] => .same
  | top :: _ => top.spelling

/-- The scopes once a name is bound in the innermost one. -/
def enter (name : Text) : Layers → Layers
  | [] => []
  | top :: outer => { top with names := top.names.insert name true } :: outer

/-- The scopes after a statement. -/
def after (Γ : Layers) (s : Stmt) : Layers :=
  match s.declared? with
  | none => Γ
  | some name => Γ.enter name

end Layers

/-- What is compared: the tables of both sides, which identities go together, and which names may be blamed for one
fault. If it is strict, assignments only go to variables that are sure to be bound. -/
structure Pairing where
  left : Locals
  right : Locals
  ids : NodeId → NodeId → Prop
  blames : Ident → Ident → Prop
  strict : Prop

/-- Two references to one variable, a global or the local of a scope. `sure` demands that the scope
binds it. -/
inductive Refers (p : Pairing) (Γ : Layers) (sure : Prop) : NodeId → Text → NodeId → Text → Prop where
  | global (ids : p.ids i j) (left : p.left[i]? = none) (right : p.right[j]? = none) :
      Refers p Γ sure i name j name
  | inScope (ids : p.ids i j) (left : p.left[i]? = some d) (right : p.right[j]? = some d)
      (layer : Γ[d]? = some l) (bound : sure → l.Binds name) : Refers p Γ sure i name j (l.spelling name)

/-- Names of properties and methods. -/
structure SameName (p : Pairing) (name other : Ident) : Prop where
  text : other.text = name.text
  blames : p.blames name other

/-- Names of functions and classes, which are printed and therefore kept. -/
structure Kept (Γ : Layers) (name other : Ident) : Prop where
  text : other.text = name.text
  fixed : Γ.spelling name.text = name.text
  ordinary : Ordinary name.text

/-- Alike pieces of two programs, in scopes with the given layers. The truth value says whether the
piece is part of a function, so that it may return. -/
inductive Alike (p : Pairing) : Bool → Layers → Code → Code → Prop where
  | literal : Alike p inside Γ (.expr (.literal v)) (.expr (.literal v))
  | group (inner : Alike p inside Γ (.expr e) (.expr e')) :
      Alike p inside Γ (.expr (.group e)) (.expr (.group e'))
  | unary (blames : p.blames ⟨op.symbol, l⟩ ⟨op.symbol, l'⟩) (operand : Alike p inside Γ (.expr e) (.expr e')) :
      Alike p inside Γ (.expr (.unary op l e)) (.expr (.unary op l' e'))
  | binary (blames : p.blames ⟨op.symbol, l⟩ ⟨op.symbol, l'⟩) (left : Alike p inside Γ (.expr a) (.expr a'))
      (right : Alike p inside Γ (.expr b) (.expr b')) :
      Alike p inside Γ (.expr (.binary op l a b)) (.expr (.binary op l' a' b'))
  | logical (left : Alike p inside Γ (.expr a) (.expr a')) (right : Alike p inside Γ (.expr b) (.expr b')) :
      Alike p inside Γ (.expr (.logical op a b)) (.expr (.logical op a' b'))
  | use (refers : Refers p Γ True r.id r.name.text r'.id r'.name.text)
      (blames : p.blames r.name r'.name) : Alike p inside Γ (.expr (.use r)) (.expr (.use r'))
  | assign (refers : Refers p Γ p.strict r.id r.name.text r'.id r'.name.text)
      (ordinary : Ordinary r.name.text) (blames : p.blames r.name r'.name)
      (value : Alike p inside Γ (.expr e) (.expr e')) :
      Alike p inside Γ (.expr (.assign r e)) (.expr (.assign r' e'))
  | call (callee : Alike p inside Γ (.expr f) (.expr f'))
      (arguments : Alike p inside Γ (.exprs es) (.exprs es'))
      (blames : p.blames ⟨Text.ofString ")", l⟩ ⟨Text.ofString ")", l'⟩) :
      Alike p inside Γ (.expr (.call f es l)) (.expr (.call f' es' l'))
  | get (object : Alike p inside Γ (.expr e) (.expr e')) (name : SameName p n n') :
      Alike p inside Γ (.expr (.get e n)) (.expr (.get e' n'))
  | set (object : Alike p inside Γ (.expr o) (.expr o')) (name : SameName p n n')
      (value : Alike p inside Γ (.expr e) (.expr e')) :
      Alike p inside Γ (.expr (.set o n e)) (.expr (.set o' n' e'))
  | self (refers : Refers p Γ True i Names.this j Names.this)
      (blames : p.blames ⟨Names.this, l⟩ ⟨Names.this, l'⟩) :
      Alike p inside Γ (.expr (.self i l)) (.expr (.self j l'))
  | superMethod (ids : p.ids i j) (left : p.left[i]? = some (d + 1)) (right : p.right[j]? = some (d + 1))
      (outer : Γ[d + 1]? = some home) (super : home.Binds Names.super) (inner : Γ[d]? = some own)
      (this : own.Binds Names.this) (name : SameName p n n') :
      Alike p inside Γ (.expr (.superMethod i l n)) (.expr (.superMethod j l' n'))
  | noExprs : Alike p inside Γ (.exprs []) (.exprs [])
  | moreExprs (first : Alike p inside Γ (.expr e) (.expr e'))
      (rest : Alike p inside Γ (.exprs es) (.exprs es')) :
      Alike p inside Γ (.exprs (e :: es)) (.exprs (e' :: es'))
  | expression (inner : Alike p inside Γ (.expr e) (.expr e')) :
      Alike p inside Γ (.stmt (.expression e)) (.stmt (.expression e'))
  | print (inner : Alike p inside Γ (.expr e) (.expr e')) :
      Alike p inside Γ (.stmt (.print e)) (.stmt (.print e'))
  | declare (renamed : n'.text = Γ.spelling n.text) (ordinary : Ordinary n.text) :
      Alike p inside Γ (.stmt (.declare n none)) (.stmt (.declare n' none))
  | declareWith (renamed : n'.text = Γ.spelling n.text) (ordinary : Ordinary n.text)
      (value : Alike p inside Γ (.expr e) (.expr e')) :
      Alike p inside Γ (.stmt (.declare n (some e))) (.stmt (.declare n' (some e')))
  | block (body : Alike p inside (⟨ρ, []⟩ :: Γ) (.stmts ss) (.stmts ss')) :
      Alike p inside Γ (.stmt (.block ss)) (.stmt (.block ss'))
  | ifOnly (condition : Alike p inside Γ (.expr c) (.expr c'))
      (thenPart : Alike p inside Γ (.stmt s) (.stmt s')) :
      Alike p inside Γ (.stmt (.branch c s none)) (.stmt (.branch c' s' none))
  | ifElse (condition : Alike p inside Γ (.expr c) (.expr c'))
      (thenPart : Alike p inside Γ (.stmt s) (.stmt s')) (elsePart : Alike p inside Γ (.stmt t) (.stmt t')) :
      Alike p inside Γ (.stmt (.branch c s (some t))) (.stmt (.branch c' s' (some t')))
  | loop (condition : Alike p inside Γ (.expr c) (.expr c')) (body : Alike p inside Γ (.stmt s) (.stmt s')) :
      Alike p inside Γ (.stmt (.loop c s)) (.stmt (.loop c' s'))
  | function (name : Kept Γ d.name d'.name)
      (decl : Alike p true (Γ.enter d.name.text) (.function d) (.function d')) :
      Alike p inside Γ (.stmt (.function d)) (.stmt (.function d'))
  | ret : Alike p true Γ (.stmt (.ret l none)) (.stmt (.ret l' none))
  | retValue (value : Alike p true Γ (.expr e) (.expr e')) :
      Alike p true Γ (.stmt (.ret l (some e))) (.stmt (.ret l' (some e')))
  | plainClass (name : Kept Γ n n')
      (methods : Alike p true (thisLayer :: Γ.enter n.text) (.functions ds) (.functions ds')) :
      Alike p inside Γ (.stmt (.classDef n none ds)) (.stmt (.classDef n' none ds'))
  | subclass (name : Kept Γ n n') (parent : Refers p Γ True r.id r.name.text r'.id r'.name.text)
      (blames : p.blames r.name r'.name)
      (methods : Alike p true (thisLayer :: superLayer :: Γ.enter n.text) (.functions ds) (.functions ds')) :
      Alike p inside Γ (.stmt (.classDef n (some r) ds)) (.stmt (.classDef n' (some r') ds'))
  | noStmts : Alike p inside Γ (.stmts []) (.stmts [])
  | moreStmts (first : Alike p inside Γ (.stmt s) (.stmt s'))
      (rest : Alike p inside (Γ.after s) (.stmts ss) (.stmts ss')) :
      Alike p inside Γ (.stmts (s :: ss)) (.stmts (s' :: ss'))
  | decl {ρ : Renaming} (name : n'.text = n.text) (params : ps'.map (·.text) = ps.map fun q => ρ q.text)
      (ordinary : ∀ q ∈ ps, Ordinary q.text)
      (body : Alike p true (⟨ρ, paramScope ps⟩ :: Γ) (.stmts ss) (.stmts ss')) :
      Alike p true Γ (.function ⟨n, ps, ss⟩) (.function ⟨n', ps', ss'⟩)
  | noFunctions : Alike p true Γ (.functions []) (.functions [])
  | moreFunctions (first : Alike p true Γ (.function d) (.function d'))
      (rest : Alike p true Γ (.functions ds) (.functions ds')) :
      Alike p true Γ (.functions (d :: ds)) (.functions (d' :: ds'))

/-- A pairing that relates more: the tables may have grown by further nodes. -/
structure Pairing.Within (p q : Pairing) : Prop where
  ids : p.ids i j → q.ids i j
  left : p.ids i j → q.left[i]? = p.left[i]?
  right : p.ids i j → q.right[j]? = p.right[j]?
  blames : p.blames n m → q.blames n m
  strict : q.strict → p.strict

private theorem Refers.widen (wider : p.Within q) (weaker : sure' → sure) (refers : Refers p Γ sure i n j m) :
    Refers q Γ sure' i n j m := by
  cases refers with
  | global ids left right =>
    exact .global (wider.ids ids) ((wider.left ids).trans left) ((wider.right ids).trans right)
  | inScope ids left right layer bound =>
    exact .inScope (wider.ids ids) ((wider.left ids).trans left) ((wider.right ids).trans right) layer
      fun sure => bound (weaker sure)

private theorem SameName.widen (wider : p.Within q) (same : SameName p n m) : SameName q n m :=
  ⟨same.text, wider.blames same.blames⟩

theorem Alike.widen (wider : p.Within q) (alike : Alike p inside Γ c c') : Alike q inside Γ c c' := by
  induction alike with
  | literal => exact .literal
  | group _ inner => exact .group inner
  | unary blames _ operand => exact .unary (wider.blames blames) operand
  | binary blames _ _ left right => exact .binary (wider.blames blames) left right
  | logical _ _ left right => exact .logical left right
  | use refers blames => exact .use (refers.widen wider id) (wider.blames blames)
  | assign refers ordinary blames _ value =>
    exact .assign (refers.widen wider wider.strict) ordinary (wider.blames blames) value
  | call _ _ blames callee arguments => exact .call callee arguments (wider.blames blames)
  | get _ name object => exact .get object (name.widen wider)
  | set _ name _ object value => exact .set object (name.widen wider) value
  | self refers blames => exact .self (refers.widen wider id) (wider.blames blames)
  | superMethod ids left right outer super inner this name =>
    exact .superMethod (wider.ids ids) ((wider.left ids).trans left) ((wider.right ids).trans right) outer
      super inner this (name.widen wider)
  | noExprs => exact .noExprs
  | moreExprs _ _ first rest => exact .moreExprs first rest
  | expression _ inner => exact .expression inner
  | print _ inner => exact .print inner
  | declare renamed ordinary => exact .declare renamed ordinary
  | declareWith renamed ordinary _ value => exact .declareWith renamed ordinary value
  | block _ body => exact .block body
  | ifOnly _ _ condition thenPart => exact .ifOnly condition thenPart
  | ifElse _ _ _ condition thenPart elsePart => exact .ifElse condition thenPart elsePart
  | loop _ _ condition body => exact .loop condition body
  | function name _ decl => exact .function name decl
  | ret => exact .ret
  | retValue _ value => exact .retValue value
  | plainClass name _ methods => exact .plainClass name methods
  | subclass name parent blames _ methods =>
    exact .subclass name (parent.widen wider id) (wider.blames blames) methods
  | noStmts => exact .noStmts
  | moreStmts _ _ first rest => exact .moreStmts first rest
  | decl name params ordinary _ body => exact .decl name params ordinary body
  | noFunctions => exact .noFunctions
  | moreFunctions _ _ first rest => exact .moreFunctions first rest

/-! Heaps. `ν` says how each run-time scope renames its names. -/

/-- The scopes from one on outwards have the given layers. -/
inductive Chain (h : Heap) (ν : List Renaming) : ScopeId → Layers → Prop where
  | globals : Chain h ν Heap.globals []
  | inner (renamed : ν[k]? = some layer.spelling) (parent : (h.scope k).parent = some up)
      (bound : ∀ name, layer.Binds name → (h.scope k).bindings.contains name = true)
      (outer : Chain h ν up Γ) : Chain h ν k (layer :: Γ)

/-- A later heap: scopes keep their parents and their names, of which they may have more. -/
structure Grows (h : Heap) (ν : List Renaming) (g : Heap) (μ : List Renaming) : Prop where
  renamings {k : ScopeId} {ρ : Renaming} : ν[k]? = some ρ → μ[k]? = some ρ
  parents : (h.scope k).parent = some up → (g.scope k).parent = some up
  names : (h.scope k).bindings.contains name = true → (g.scope k).bindings.contains name = true

theorem Grows.refl : Grows h ν h ν := ⟨id, id, id⟩

theorem Grows.trans (first : Grows h ν g μ) (second : Grows g μ f κ) : Grows h ν f κ :=
  ⟨second.renamings ∘ first.renamings, second.parents ∘ first.parents, second.names ∘ first.names⟩

theorem Chain.grow (grows : Grows h ν g μ) (chain : Chain h ν k Γ) : Chain g μ k Γ := by
  induction chain with
  | globals => exact .globals
  | inner renamed parent bound _ outer =>
    exact .inner (grows.renamings renamed) (grows.parents parent)
      (fun name binds => grows.names (bound name binds)) outer

/-- The scope further in, once more is bound in the one around it. -/
theorem Chain.around (chain : Chain h ν k (layer :: Γ)) (parent : (h.scope k).parent = some up)
    (grows : Grows h ν g μ) (outer : Chain g μ up Δ) : Chain g μ k (layer :: Δ) := by
  cases chain with
  | inner renamed _ bound _ =>
    exact .inner (grows.renamings renamed) (grows.parents parent)
      (fun name binds => grows.names (bound name binds)) outer

/-- The layer at a distance is that of the scope at that distance. -/
theorem Chain.ancestor (chain : Chain h ν k Γ) (layer : Γ[d]? = some l) :
    ∃ target, h.ancestor? d k = some target ∧ ν[target]? = some l.spelling ∧
      ∀ name, l.Binds name → (h.scope target).bindings.contains name = true := by
  induction chain generalizing d with
  | globals => simp at layer
  | inner renamed parent bound _ outer =>
    cases d with
    | zero =>
      simp only [List.getElem?_cons_zero, Option.some.injEq] at layer
      subst layer
      exact ⟨_, rfl, renamed, bound⟩
    | succ d =>
      rw [List.getElem?_cons_succ] at layer
      obtain ⟨target, found, rest⟩ := outer layer
      refine ⟨target, ?_, rest⟩
      simp only [Heap.ancestor?, parent, found]

/-- Alike functions with their scopes. A method has further layers inside its scope once it is bound to
an instance; an initializer is sure to find the instance there. -/
structure CodeAlike (p : Pairing) (h : Heap) (ν : List Renaming) (extra : Layers) (c c' : Closure) :
    Prop where
  scope : c'.scope = c.scope
  kind : c'.isInitializer = c.isInitializer
  code : ∃ Γ, Chain h ν c.scope Γ ∧ Alike p true (extra ++ Γ) (.function c.decl) (.function c'.decl) ∧
    (c.isInitializer = true → ∃ top, (extra ++ Γ).head? = some top ∧ top.Binds Names.this)

theorem Alike.parts (alike : Alike p inside Γ (.function d) (.function d')) : ∃ ρ : Renaming,
    d'.params.map (·.text) = d.params.map (fun q => ρ q.text) ∧ (∀ q ∈ d.params, Ordinary q.text) ∧
      Alike p true (⟨ρ, paramScope d.params⟩ :: Γ) (.stmts d.body) (.stmts d'.body) := by
  cases alike with
  | decl _ params ordinary body => exact ⟨_, params, ordinary, body⟩

theorem Alike.functionName (alike : Alike p inside Γ (.function d) (.function d')) :
    d'.name.text = d.name.text := by
  cases alike with
  | decl name => exact name

private theorem CodeAlike.declName (alike : CodeAlike p h ν extra c c') :
    c'.decl.name.text = c.decl.name.text := by
  obtain ⟨_, _, code, _⟩ := alike.code
  exact code.functionName

theorem CodeAlike.grow (grows : Grows h ν g μ) (alike : CodeAlike p h ν extra c c') :
    CodeAlike p g μ extra c c' := by
  obtain ⟨Γ, chain, code, this⟩ := alike.code
  exact ⟨alike.scope, alike.kind, Γ, chain.grow grows, code, this⟩

private theorem CodeAlike.widen (wider : p.Within q) (alike : CodeAlike p h ν extra c c') :
    CodeAlike q h ν extra c c' := by
  obtain ⟨Γ, chain, code, this⟩ := alike.code
  exact ⟨alike.scope, alike.kind, Γ, chain, code.widen wider, this⟩

/-- Both tables have a name, with related values, or neither has it. -/
def TableAlike (related : α → α → Prop) (t t' : Table α) : Prop :=
  ∀ name, t.find? name = none ∧ t'.find? name = none ∨
    ∃ a a', t.find? name = some a ∧ t'.find? name = some a' ∧ related a a'

private theorem TableAlike.imp (weaker : ∀ a a', R a a' → S a a') (alike : TableAlike R t t') : TableAlike S t t' := by
  intro name
  rcases alike name with none | ⟨a, a', found, found', related⟩
  · exact .inl none
  · exact .inr ⟨a, a', found, found', weaker a a' related⟩

structure ClassAlike (p : Pairing) (h : Heap) (ν : List Renaming) (c c' : Class) : Prop where
  name : c'.name = c.name
  superclass : c'.superclass = c.superclass
  methods : TableAlike (CodeAlike p h ν [thisLayer]) c.methods c'.methods

/-- Alike heaps: the same objects, with alike code and renamed scopes. The words of the language are
bound to what they stand for. -/
structure HeapAlike (p : Pairing) (ν : List Renaming) (h h' : Heap) : Prop where
  size : h.scopes.size = ν.length
  size' : h'.scopes.size = ν.length
  scopes {k : ScopeId} {ρ : Renaming} : ν[k]? = some ρ → h'.scope k =
      ⟨(h.scope k).parent, (h.scope k).bindings.renamed ρ⟩
  root : ν[Heap.globals]? = some Renaming.same
  this : (h.scope k).bindings.find? Names.this = some v → ∃ o, v = .object o
  super : (h.scope k).bindings.find? Names.super = some v → ∃ c, v = .cls c
  functionCount : h'.functions.size = h.functions.size
  functions : ∀ k, CodeAlike p h ν [] (h.function k) (h'.function k)
  classCount : h'.classes.size = h.classes.size
  classes : ∀ k, ClassAlike p h ν (h.cls k) (h'.cls k)
  instances : h'.instances = h.instances

private theorem ClassAlike.grow (grows : Grows h ν g μ) (alike : ClassAlike p h ν c c') : ClassAlike p g μ c c' :=
  ⟨alike.name, alike.superclass, alike.methods.imp fun _ _ => CodeAlike.grow grows⟩

private theorem ClassAlike.widen (wider : p.Within q) (alike : ClassAlike p h ν c c') : ClassAlike q h ν c c' :=
  ⟨alike.name, alike.superclass, alike.methods.imp fun _ _ => CodeAlike.widen wider⟩

/-- Scopes that have not changed. -/
theorem Grows.of_scopes (same : g.scopes = h.scopes) : Grows h ν g ν := by
  have scope : g.scope = h.scope := by
    funext k
    simp only [Heap.scope, same]
  refine ⟨id, ?_, ?_⟩
  · rw [scope]
    exact id
  · rw [scope]
    exact id

namespace HeapAlike

theorem widen (wider : p.Within q) (alike : HeapAlike p ν h h') : HeapAlike q ν h h' :=
  { alike with
    functions := fun k => (alike.functions k).widen wider
    classes := fun k => (alike.classes k).widen wider }

/-- The heap of a new session is alike to itself. -/
theorem initial (p : Pairing) : HeapAlike p [.same] Heap.initial Heap.initial := by
  have code : CodeAlike p Heap.initial [.same] [] default default := by
    refine ⟨rfl, rfl, [], .globals, ?_, nofun⟩
    exact .decl (ρ := .same) rfl rfl nofun .noStmts
  have cls : ClassAlike p Heap.initial [.same] default default := ⟨rfl, rfl, fun _ => .inl ⟨rfl, rfl⟩⟩
  have word : ∀ k name, Text.ofString "clock" ≠ name →
      (Heap.initial.scope k).bindings.find? name = none := by
    intro k name other
    cases k with
    | zero =>
      have bindings : (Heap.initial.scope 0).bindings = [(Text.ofString "clock", .clock)] := rfl
      rw [bindings, Table.find?_single, if_neg other]
    | succ k => rfl
  refine ⟨rfl, rfl, ?_, rfl, ?_, ?_, rfl, fun _ => code, rfl, fun _ => cls, rfl⟩
  · intro k ρ known
    cases k with
    | zero =>
      cases known
      rfl
    | succ k => cases known
  · intro k v found
    rw [word k Names.this (by decide)] at found
    cases found
  · intro k v found
    rw [word k Names.super (by decide)] at found
    cases found

/-- A scope with a known chain is renamed as its innermost layer says. -/
theorem spelling (alike : HeapAlike p ν h h') (chain : Chain h ν k Γ) : ν[k]? = some Γ.spelling := by
  cases chain with
  | globals => exact alike.root
  | inner renamed => exact renamed

private theorem inside (alike : HeapAlike p ν h h') (chain : Chain h ν k Γ) : k < h.scopes.size := by
  rw [alike.size]
  exact (List.getElem?_eq_some_iff.1 (alike.spelling chain)).1

/-- A new scope, renamed in its own way. -/
theorem newScope (alike : HeapAlike p ν h h') (ρ : Renaming) (up : ScopeId) (bindings : Table Value)
    (this : ∀ v, bindings.find? Names.this = some v → ∃ o, v = .object o)
    (super : ∀ v, bindings.find? Names.super = some v → ∃ c, v = .cls c) :
    Grows h ν (h.newScope (some up) bindings).2 (ν ++ [ρ]) ∧
    HeapAlike p (ν ++ [ρ]) (h.newScope (some up) bindings).2
      (h'.newScope (some up) (bindings.renamed ρ)).2 := by
  have grows : Grows h ν (h.newScope (some up) bindings).2 (ν ++ [ρ]) := by
    refine ⟨?_, ?_, ?_⟩
    · intro k σ known
      rw [List.getElem?_append_left (List.getElem?_eq_some_iff.1 known).1]
      exact known
    · intro k up' parent
      rw [Heap.scope_newScope]
      split
      · rename_i new
        rw [new, Heap.scope_size] at parent
        cases parent
      · exact parent
    · intro k name bound
      rw [Heap.scope_newScope]
      split
      · rename_i new
        rw [new, Heap.scope_size] at bound
        cases bound
      · exact bound
  refine ⟨grows, ?_⟩
  have sizes : h'.scopes.size = h.scopes.size := alike.size'.trans alike.size.symm
  refine ⟨?_, ?_, ?_, ?_, ?_, ?_, alike.functionCount, fun k => (alike.functions k).grow grows,
    alike.classCount, fun k => (alike.classes k).grow grows, alike.instances⟩
  · simp [Heap.newScope, alike.size]
  · simp [Heap.newScope, alike.size']
  · intro k σ known
    rw [Heap.scope_newScope, Heap.scope_newScope, sizes]
    split
    · rename_i new
      rw [new, alike.size, List.getElem?_append_right (Nat.le_refl _)] at known
      simp only [Nat.sub_self, List.getElem?_cons_zero, Option.some.injEq] at known
      rw [known]
    · rename_i old
      refine alike.scopes ?_
      have below : k < ν.length := by
        have reach := (List.getElem?_eq_some_iff.1 known).1
        rw [List.length_append, List.length_singleton] at reach
        rw [alike.size] at old
        exact Nat.lt_of_le_of_ne (Nat.le_of_lt_succ reach) old
      rwa [List.getElem?_append_left below] at known
  · exact grows.renamings alike.root
  · intro k v found
    rw [Heap.scope_newScope] at found
    split at found
    · exact this v found
    · exact alike.this found
  · intro k v found
    rw [Heap.scope_newScope] at found
    split at found
    · exact super v found
    · exact alike.super found

/-- The chain from a new scope on. -/
theorem chain_newScope (alike : HeapAlike p ν h h') (chain : Chain h ν up Γ) (layer : Layer)
    (grows : Grows h ν (h.newScope (some up) bindings).2 (ν ++ [layer.spelling]))
    (bound : ∀ name, layer.Binds name → bindings.contains name = true) :
    Chain (h.newScope (some up) bindings).2 (ν ++ [layer.spelling]) h.scopes.size (layer :: Γ) := by
  refine .inner ?_ ?_ ?_ (chain.grow grows)
  · simp [alike.size]
  · simp [Heap.scope_newScope]
  · simpa [Heap.scope_newScope] using bound

/-- A name is bound in a scope, under its other name on the other side. -/
theorem define (alike : HeapAlike p ν h h') (renamed : ν[k]? = some ρ) (ordinary : Ordinary name)
    (value : Value) : Grows h ν (h.define k name value) ν ∧
      HeapAlike p ν (h.define k name value) (h'.define k (ρ name) value) := by
  have reach : k < ν.length := (List.getElem?_eq_some_iff.1 renamed).1
  have inside : k < h.scopes.size := alike.size ▸ reach
  have inside' : k < h'.scopes.size := alike.size' ▸ reach
  have grows : Grows h ν (h.define k name value) ν := by
    refine ⟨id, ?_, ?_⟩
    · intro j up parent
      rw [h.scope_define inside]
      split
      · rename_i here
        rw [← here]
        exact parent
      · exact parent
    · intro j other bound
      rw [h.scope_define inside]
      split
      · rename_i here
        rw [← here, Table.contains_insert, bound, Bool.or_true]
      · exact bound
  refine ⟨grows, ?_⟩
  refine ⟨?_, ?_, ?_, alike.root, ?_, ?_, alike.functionCount, fun j => (alike.functions j).grow grows,
    alike.classCount, fun j => (alike.classes j).grow grows, alike.instances⟩
  · rw [Heap.size_define, alike.size]
  · rw [Heap.size_define, alike.size']
  · intro j σ known
    rw [h.scope_define inside, h'.scope_define inside']
    split
    · rename_i here
      rw [here, renamed, Option.some.injEq] at known
      rw [alike.scopes renamed, ← known, Table.renamed_insert ρ.injective]
    · exact alike.scopes known
  · intro j v found
    rw [h.scope_define inside] at found
    split at found
    · rw [Table.find?_insert, if_neg ordinary.1] at found
      exact alike.this found
    · exact alike.this found
  · intro j v found
    rw [h.scope_define inside] at found
    split at found
    · rw [Table.find?_insert, if_neg ordinary.2] at found
      exact alike.super found
    · exact alike.super found

/-- A name bound in the innermost scope is sure to be bound from then on. -/
theorem chain_define (alike : HeapAlike p ν h h') (chain : Chain h ν k Γ) (value : Value)
    (grows : Grows h ν (h.define k name value) ν) : Chain (h.define k name value) ν k (Γ.enter name) := by
  have here := alike.inside chain
  cases chain with
  | globals => exact .globals
  | inner renamed parent bound outer =>
    refine .inner renamed (grows.parents parent) ?_ (outer.grow grows)
    intro other binds
    rw [h.scope_define here, if_pos rfl, Table.contains_insert]
    by_cases same : name = other
    · simp [same]
    · have before := bound other (by simpa [Layer.Binds, same] using binds)
      rw [before, Bool.or_true]

theorem newFunction (alike : HeapAlike p ν h h') (code : CodeAlike p h ν [] c c') :
    HeapAlike p ν (h.newFunction c).2 (h'.newFunction c').2 := by
  have grows : Grows h ν (h.newFunction c).2 ν := .of_scopes rfl
  refine { alike with functionCount := ?_, functions := ?_, classes := ?_ }
  · simp [Heap.newFunction, alike.functionCount]
  · intro k
    rw [Heap.function_newFunction, Heap.function_newFunction, alike.functionCount]
    split
    · exact code.grow grows
    · exact (alike.functions k).grow grows
  · exact fun k => (alike.classes k).grow grows

theorem newClass (alike : HeapAlike p ν h h') (cls : ClassAlike p h ν c c') :
    HeapAlike p ν (h.newClass c).2 (h'.newClass c').2 := by
  have grows : Grows h ν (h.newClass c).2 ν := .of_scopes rfl
  refine { alike with functions := ?_, classCount := ?_, classes := ?_ }
  · exact fun k => (alike.functions k).grow grows
  · simp [Heap.newClass, alike.classCount]
  · intro k
    rw [Heap.cls_newClass, Heap.cls_newClass, alike.classCount]
    split
    · exact cls.grow grows
    · exact (alike.classes k).grow grows

/-- Instances are the same on both sides. -/
theorem withInstances (alike : HeapAlike p ν h h') (instances : Array Instance) :
    HeapAlike p ν { h with instances } { h' with instances } := by
  have grows : Grows h ν { h with instances } ν := .of_scopes rfl
  exact { alike with
    functions := fun k => (alike.functions k).grow grows
    classes := fun k => (alike.classes k).grow grows
    instances := rfl }

/-! Reading alike heaps. -/

private theorem parent (alike : HeapAlike p ν h h') (k : ScopeId) : (h'.scope k).parent = (h.scope k).parent := by
  cases known : ν[k]? with
  | some ρ => rw [alike.scopes known]
  | none =>
    have beyond := List.getElem?_eq_none_iff.1 known
    have left : h.scopes[k]? = none := Array.getElem?_eq_none (alike.size ▸ beyond)
    have right : h'.scopes[k]? = none := Array.getElem?_eq_none (alike.size' ▸ beyond)
    rw [Heap.scope, Heap.scope, left, right]

private theorem ancestor? (alike : HeapAlike p ν h h') (d : Nat) (k : ScopeId) :
    h'.ancestor? d k = h.ancestor? d k := by
  induction d generalizing k with
  | zero => rfl
  | succ d ih =>
    simp only [Heap.ancestor?, alike.parent]
    split
    · rfl
    · exact ih _

private theorem find? (alike : HeapAlike p ν h h') (renamed : ν[k]? = some ρ) (name : Text) :
    h'.find? k (ρ name) = h.find? k name := by
  rw [Heap.find?, alike.scopes renamed]
  exact Table.find?_renamed ρ.injective _ name

private theorem contains (alike : HeapAlike p ν h h') (renamed : ν[k]? = some ρ) (name : Text) :
    (h'.scope k).bindings.contains (ρ name) = (h.scope k).bindings.contains name := by
  rw [alike.scopes renamed]
  exact Table.contains_renamed ρ.injective _ name

/-- A slot of a layer is the same slot on the other side. If the layer binds the name, the slot exists. -/
theorem slotAt (alike : HeapAlike p ν h h') (chain : Chain h ν k Γ) (layer : Γ[d]? = some l) (name : Text) :
    h.slotAt k d name = .error .notBound ∧ h'.slotAt k d (l.spelling name) = .error .notBound ∧
        ¬ l.Binds name ∨
      ∃ target value, h.slotAt k d name = .ok target ∧ h'.slotAt k d (l.spelling name) = .ok target ∧
        ν[target]? = some l.spelling ∧ h.find? target name = some value := by
  obtain ⟨target, found, renamed, bound⟩ := chain.ancestor layer
  have found' := (alike.ancestor? d k).trans found
  simp only [Heap.slotAt, found, found', alike.contains renamed]
  cases here : (h.scope target).bindings.contains name with
  | false =>
    refine .inl ⟨rfl, rfl, fun binds => ?_⟩
    rw [bound name binds] at here
    cases here
  | true =>
    obtain ⟨value, read⟩ := Table.contains_eq_true.1 here
    exact .inr ⟨target, value, rfl, rfl, renamed, read⟩

/-- A name that a layer binds reads the same on both sides. -/
theorem getAt (alike : HeapAlike p ν h h') (chain : Chain h ν k Γ) (layer : Γ[d]? = some l)
    (binds : l.Binds name) : ∃ target value, h.find? target name = some value ∧
      h.getAt k d name = .ok value ∧ h'.getAt k d (l.spelling name) = .ok value := by
  rcases alike.slotAt chain layer name with ⟨_, _, unbound⟩ | ⟨target, value, slot, slot', renamed, read⟩
  · exact absurd binds unbound
  · refine ⟨target, value, read, ?_, ?_⟩
    · simp only [Heap.getAt, slot, Except.bind, read]
    · simp only [Heap.getAt, slot', Except.bind, alike.find? renamed, read]

theorem globals (alike : HeapAlike p ν h h') : h'.scope Heap.globals = h.scope Heap.globals := by
  rw [alike.scopes alike.root]
  exact congrArg (Scope.mk _) (Table.renamed_id _)

theorem owner?_globals (alike : HeapAlike p ν h h') (name : Text) :
    h'.owner? Heap.globals name = h.owner? Heap.globals name := by
  simp only [Heap.owner?, Heap.globals, Heap.ownerWithin]
  rw [show h'.scope 0 = h.scope 0 from alike.globals]

theorem get?_globals (alike : HeapAlike p ν h h') (name : Text) :
    h'.get? Heap.globals name = h.get? Heap.globals name := by
  unfold Heap.get?
  rw [alike.owner?_globals]
  cases owner : h.owner? Heap.globals name with
  | none => rfl
  | some k =>
    simp only [Option.bind_some, Heap.owner?_globals owner, Heap.find?, alike.globals]

/-- The same methods are found, with alike code. -/
theorem method? (alike : HeapAlike p ν h h') (c : ClassId) (name : Text) :
    h.method? c name = none ∧ h'.method? c name = none ∨
      ∃ m m', h.method? c name = some m ∧ h'.method? c name = some m' ∧
        CodeAlike p h ν [thisLayer] m m' := by
  unfold Heap.method?
  generalize c + 1 = n
  induction n generalizing c with
  | zero => exact .inl ⟨rfl, rfl⟩
  | succ n ih =>
    have same := alike.classes c
    simp only [Heap.methodWithin]
    rcases same.methods name with ⟨none, none'⟩ | ⟨m, m', some, some', code⟩
    · simp only [none, none', same.superclass]
      split
      · exact .inl ⟨rfl, rfl⟩
      · exact ih _
    · simp only [some, some']
      exact .inr ⟨m, m', rfl, rfl, code⟩

theorem object (alike : HeapAlike p ν h h') (o : InstanceId) : h'.object o = h.object o := by
  rw [Heap.object, alike.instances, Heap.object]

/-- Values print the same. -/
theorem text (alike : HeapAlike p ν h h') (value : Value) : h'.text value = h.text value := by
  cases value with
  | function id => simp only [Heap.text, (alike.functions id).declName]
  | cls id => simp only [Heap.text, (alike.classes id).name]
  | object id => simp only [Heap.text, alike.object, (alike.classes _).name]
  | _ => rfl

end HeapAlike

end Lox.Likeness
