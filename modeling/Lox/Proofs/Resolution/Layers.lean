import Lox.Proofs.Resolution.Placement
import Lox.Proofs.Resolution.Respelling

/-! The local scopes around a piece of a program, read off the constructs around it. Only classes make scopes for
`this` and `super`: one for the instance of a method and, below a superclass, another right around it. In a
program that resolution accepts every `this` and every `super` has the distances to the scopes of the innermost
class, and nothing else is declared or assigned under these words. -/
namespace Lox

namespace Site

/-- A local scope, by what it is made for. -/
inductive Layer
  | plain
  /-- Binds `this` to the instance of a method. -/
  | this
  /-- Binds `super` for the methods of a class. -/
  | super (superclass : Reference) (methods : List FunctionDecl)

namespace Layer

def isThis : Layer → Bool
  | .this => true
  | .plain | .super _ _ => false

def isSuper : Layer → Bool
  | .super _ _ => true
  | .plain | .this => false

end Layer
end Site

open Site (Layer)

/-- The scopes that a construct makes, the innermost first. -/
def Enclosure.layers : Enclosure → List Layer
  | block | functionBody | methodBody _ => [.plain]
  | classBody none _ => [.this]
  | classBody (some superclass) methods => [.this, .super superclass methods]
  | initializer _ => []

namespace Site

/-- The scopes around a piece, the innermost first. -/
def layers (around : List Enclosure) : List Layer := around.flatMap Enclosure.layers

/-- The scope of `this` is at a distance, and right around it that of `super` if there is a superclass. -/
structure ClassAt (d : Nat) (superclass : Option Reference) (methods : List FunctionDecl) (Λ : List Layer) :
    Prop where
  this : Λ.findIdx? (·.isThis) = some d
  super : ∀ ref ∈ superclass, Λ.findIdx? (·.isSuper) = some (d + 1) ∧ Λ[d + 1]? = some (.super ref methods)

private theorem ClassAt.plain (outside : ClassAt d superclass methods Λ) :
    ClassAt (d + 1) superclass methods (.plain :: Λ) := by
  constructor
  · rw [List.findIdx?_cons, outside.this]
    rfl
  · intro ref has
    obtain ⟨found, layer⟩ := outside.super ref has
    refine ⟨?_, layer⟩
    rw [List.findIdx?_cons, found]
    rfl

private theorem classAt_classBody (superclass : Option Reference) (methods : List FunctionDecl)
    (around : List Enclosure) :
    ClassAt 0 superclass methods (layers (.classBody superclass methods :: around)) := by
  cases superclass with
  | none => exact ⟨rfl, nofun⟩
  | some superclass =>
    refine ⟨rfl, fun ref has => ?_⟩
    cases has
    exact ⟨rfl, rfl⟩

/-- The nearest `this` and `super` are those of the innermost class. -/
theorem exists_classAt {around : List Enclosure} {superclass : Option Reference} {methods : List FunctionDecl}
    (inside : around.find? (·.isClass) = some (.classBody superclass methods)) :
    ∃ d, ClassAt d superclass methods (layers around) := by
  induction around with
  | nil => cases inside
  | cons outer around ih =>
    cases outer with
    | block | functionBody | methodBody =>
      obtain ⟨d, found⟩ := ih inside
      exact ⟨d + 1, found.plain⟩
    | initializer => exact ih inside
    | classBody own members =>
      cases inside
      exact ⟨0, classAt_classBody superclass methods around⟩

/-- An expression in a method of a class, at any depth, but not in another class inside it. -/
def WrittenIn (superclass : Option Reference) (methods : List FunctionDecl) (e : Expr) : Prop :=
  ∃ method ∈ methods, ∃ stmt ∈ method.body, ∃ outer around,
    Contains ⟨.stmt stmt, .methodBody method.name.text :: .classBody superclass methods :: outer⟩ ⟨.expr e, around⟩ ∧
      around.find? (·.isClass) = some (.classBody superclass methods)

/-- The parts of a piece have the same innermost class around them, except for the bodies of methods. -/
theorem parts_class {site part : Site} (member : part ∈ site.parts) :
    part.around.find? (·.isClass) = site.around.find? (·.isClass) ∨
      ∃ superclass methods, ∃ method ∈ methods, ∃ stmt ∈ method.body,
        part = ⟨.stmt stmt, .methodBody method.name.text :: .classBody superclass methods :: site.around⟩ := by
  obtain ⟨piece, around⟩ := site
  cases piece with
  | expr e =>
    obtain ⟨_, _, rfl⟩ := List.mem_map.1 member
    exact .inl rfl
  | stmt s =>
    cases s with
    | expression | print =>
      cases List.mem_singleton.1 member
      exact .inl rfl
    | declare _ value | ret _ value =>
      cases value with
      | none => cases member
      | some e =>
        cases List.mem_singleton.1 member
        exact .inl rfl
    | block | function =>
      obtain ⟨_, _, rfl⟩ := List.mem_map.1 member
      exact .inl rfl
    | branch _ _ elseBranch =>
      cases elseBranch with
      | none => rcases List.mem_pair.1 member with rfl | rfl <;> exact .inl rfl
      | some =>
        rcases List.mem_cons.1 member with rfl | others
        · exact .inl rfl
        · rcases List.mem_pair.1 others with rfl | rfl <;> exact .inl rfl
    | loop => rcases List.mem_pair.1 member with rfl | rfl <;> exact .inl rfl
    | classDef name superclass methods =>
      rcases List.mem_append.1 member with named | inMethod
      · obtain ⟨_, _, rfl⟩ := List.mem_map.1 named
        exact .inl rfl
      · obtain ⟨method, isMethod, inside⟩ := List.mem_flatMap.1 inMethod
        obtain ⟨stmt, inBody, rfl⟩ := List.mem_map.1 inside
        exact .inr ⟨superclass, methods, method, isMethod, stmt, inBody, rfl⟩

/-- The innermost class is around the whole, or else the piece is in one of its methods. -/
theorem Contains.inClass {site inner : Site} (contains : site.Contains inner)
    (innermost : inner.around.find? (·.isClass) = some (.classBody superclass methods)) :
    site.around.find? (·.isClass) = some (.classBody superclass methods) ∨
      ∃ method ∈ methods, ∃ stmt ∈ method.body, ∃ outer,
        Contains ⟨.stmt stmt, .methodBody method.name.text :: .classBody superclass methods :: outer⟩ inner := by
  induction contains with
  | here => exact .inl innermost
  | @part site part piece member inside ih =>
    rcases ih innermost with around | found
    · rcases parts_class member with same | ⟨superclass', methods', method, isMethod, stmt, inBody, rfl⟩
      · exact .inl (same.symm.trans around)
      · cases around
        exact .inr ⟨method, isMethod, stmt, inBody, site.around, inside⟩
    · exact .inr found

theorem writtenIn_of_occurs {around : List Enclosure} (occurs : Occurs program ⟨.expr e, around⟩)
    (innermost : around.find? (·.isClass) = some (.classBody superclass methods)) :
    WrittenIn superclass methods e := by
  obtain ⟨s, -, contains⟩ := occurs
  rcases contains.inClass innermost with outside | ⟨method, isMethod, stmt, inBody, outer, inside⟩
  · cases outside
  · exact ⟨method, isMethod, stmt, inBody, outer, around, inside, innermost⟩

/-- What resolution has found at one piece of a program. -/
def Resolved (L : Locals) (last : NodeId) : Site → Prop
  | ⟨.expr (.self node _), around⟩ => node ≤ last ∧
    ∃ d, L[node]? = some d ∧ (layers around).findIdx? (·.isThis) = some d
  -- The scope that binds `super` is the one around that of `this`.
  | ⟨.expr (.superMethod node _ _), around⟩ => node ≤ last ∧
    ∃ d superclass methods, L[node]? = some (d + 1) ∧ (layers around).findIdx? (·.isThis) = some d ∧
      (layers around)[d + 1]? = some (.super superclass methods) ∧
      around.find? (·.isClass) = some (.classBody (some superclass) methods)
  | ⟨.expr (.assign ref _), _⟩ => Ordinary ref.name.text
  | ⟨.stmt (.declare name _), _⟩ => Ordinary name.text
  | ⟨.stmt (.function decl), _⟩ => Ordinary decl.name.text ∧ ∀ param ∈ decl.params, Ordinary param.text
  | ⟨.stmt (.classDef name _ methods), _⟩ =>
    Ordinary name.text ∧ ∀ method ∈ methods, ∀ param ∈ method.params, Ordinary param.text
  | _ => True

theorem Resolved.grow {site : Site} (resolved : site.Resolved L last) (later : last ≤ last')
    (keeps : ∀ node, node ≤ last → K[node]? = L[node]?) : site.Resolved K last' := by
  unfold Resolved at resolved ⊢
  split at resolved
  · obtain ⟨old, d, recorded, found⟩ := resolved
    exact ⟨Nat.le_trans old later, d, (keeps _ old).trans recorded, found⟩
  · obtain ⟨old, d, superclass, methods, recorded, found⟩ := resolved
    exact ⟨Nat.le_trans old later, d, superclass, methods, (keeps _ old).trans recorded, found⟩
  all_goals exact resolved

end Site

/-! Resolution has the scopes at hand that the constructs around a piece make. -/

namespace Scopes

/-- Scopes in the middle of resolution that are the given layers. -/
inductive Bears : Scopes → List Layer → Prop where
  | nil : Bears [] []
  | cons (outer : Bears Γ Λ) (this : top.contains Names.this = layer.isThis)
      (super : top.contains Names.super = layer.isSuper) : Bears (top :: Γ) (layer :: Λ)

namespace Bears

private theorem enter (bears : Bears Γ Λ) (ordinary : Ordinary name) (ready : Bool) : Bears (Γ.enter name ready) Λ := by
  cases bears with
  | nil => exact .nil
  | cons outer this super =>
    refine .cons outer ?_ ?_
    · rw [Table.contains_insert, decide_eq_false ordinary.1, Bool.false_or, this]
    · rw [Table.contains_insert, decide_eq_false ordinary.2, Bool.false_or, super]

private theorem after {s : Stmt} (bears : Bears Γ Λ) (formed : s.Formed Ordinary) : Bears (s.after Γ) Λ := by
  unfold Stmt.after
  cases declared : s.declared? with
  | none => exact bears
  | some name => exact bears.enter (Stmt.Formed.declared formed declared) true

/-- A scope of ordinary names. -/
theorem plain (bears : Bears Γ Λ) (ordinary : ∀ name, top.contains name = true → Ordinary name) :
    Bears (top :: Γ) (.plain :: Λ) := by
  have absent : ∀ word, ¬ Ordinary word → top.contains word = false :=
    fun word reserved => Bool.eq_false_iff.2 fun has => reserved (ordinary word has)
  exact .cons bears (absent _ fun this => this.1 rfl) (absent _ fun super => super.2 rfl)

private theorem block (bears : Bears Γ Λ) : Bears ([] :: Γ) (.plain :: Λ) := bears.plain nofun

private theorem params {params : List Ident} (bears : Bears Γ Λ) (ordinary : ∀ param ∈ params, Ordinary param.text) :
    Bears (paramScope params :: Γ) (.plain :: Λ) := by
  refine bears.plain fun name has => ?_
  obtain ⟨_, found⟩ := Table.contains_eq_true.1 has
  rw [find?_paramScope] at found
  split at found
  · rename_i member
    obtain ⟨param, isParam, rfl⟩ := List.mem_map.1 member
    exact ordinary param isParam
  · cases found

private theorem this (bears : Bears Γ Λ) : Bears (thisScope :: Γ) (.this :: Λ) := .cons bears rfl rfl

private theorem super (bears : Bears Γ Λ) (superclass : Reference) (methods : List FunctionDecl) :
    Bears (superScope :: Γ) (.super superclass methods :: Λ) := .cons bears rfl rfl

private theorem distance?_this (bears : Bears Γ Λ) : Resolver.distance? Γ Names.this = Λ.findIdx? (·.isThis) := by
  induction bears with
  | nil => rfl
  | cons outer this super ih =>
    unfold Resolver.distance? at ih ⊢
    rw [List.findIdx?_cons, List.findIdx?_cons, this, ih]

private theorem distance?_super (bears : Bears Γ Λ) : Resolver.distance? Γ Names.super = Λ.findIdx? (·.isSuper) := by
  induction bears with
  | nil => rfl
  | cons outer this super ih =>
    unfold Resolver.distance? at ih ⊢
    rw [List.findIdx?_cons, List.findIdx?_cons, super, ih]

end Bears
end Scopes

open Site (Everywhere Resolved layers classContext surroundings)

/-! What an accepted program is made of is resolved. -/

/-- All the nodes have been handed out. -/
def Old (last : NodeId) (ids : List NodeId) : Prop := ∀ id ∈ ids, id ≤ last

private theorem Old.append : Old last (xs ++ ys) ↔ Old last xs ∧ Old last ys := List.forall_mem_append

namespace Site

/-- The innermost class, where there is one. -/
theorem exists_class {around : List Enclosure} (inside : classContext around ≠ .outside) :
    ∃ superclass methods, around.find? (·.isClass) = some (.classBody superclass methods) := by
  rw [classContext] at inside
  cases found : around.find? (·.isClass) with
  | none =>
    rw [found] at inside
    exact absurd rfl inside
  | some outer =>
    have isClass := List.find?_some found
    cases outer with
    | classBody superclass methods => exact ⟨superclass, methods, rfl⟩
    | block | functionBody | methodBody | initializer => cases isClass

variable {around : List Enclosure} {Γ : Scopes}

private theorem resolved_self (bears : Γ.Bears (layers around)) (inside : classContext around ≠ .outside)
    (recorded : L.Records Γ node Names.this) (old : node ≤ last) :
    Resolved L last ⟨.expr (.self node line), around⟩ := by
  obtain ⟨superclass, methods, found⟩ := exists_class inside
  obtain ⟨d, place⟩ := exists_classAt found
  refine ⟨old, d, ?_, place.this⟩
  rw [recorded, bears.distance?_this, place.this]

private theorem resolved_superMethod (bears : Γ.Bears (layers around)) (inside : classContext around = .subclass)
    (recorded : L.Records Γ node Names.super) (old : node ≤ last) :
    Resolved L last ⟨.expr (.superMethod node line name), around⟩ := by
  obtain ⟨superclass, methods, found⟩ := (find?_isClass_iff around).2 inside
  obtain ⟨d, place⟩ := exists_classAt found
  obtain ⟨super, layer⟩ := place.super superclass rfl
  refine ⟨old, d, superclass, methods, ?_, place.this, layer, found⟩
  rw [recorded, bears.distance?_super, super]

end Site

/-- Two parts of an expression, and nothing else. -/
theorem Site.everywhere_two {P : Site → Prop} {around : List Enclosure} (here : P ⟨.expr e, around⟩)
    (parts : e.parts = [left, right]) (first : Everywhere P ⟨.expr left, around⟩)
    (second : Everywhere P ⟨.expr right, around⟩) : Everywhere P ⟨.expr e, around⟩ := by
  refine (everywhere_expr e).2 ⟨here, ?_⟩
  rw [parts]
  exact List.forall_mem_cons.2 ⟨first, List.forall_mem_singleton.2 second⟩

mutual

theorem Expr.resolved (around : List Enclosure) {Γ : Scopes} (bears : Γ.Bears (layers around)) : (e : Expr) →
    e.Scoped L (classContext around) Γ → e.Formed Ordinary → Old last e.ids →
      Everywhere (Resolved L last) ⟨.expr e, around⟩
  | .literal _, _, _, _ | .use _, _, _, _ => (Site.everywhere_expr _).2 ⟨trivial, nofun⟩
  | .group inner, found, formed, old | .unary _ _ inner, found, formed, old | .get inner _, found, formed, old =>
    (Site.everywhere_expr _).2
      ⟨trivial, List.forall_mem_singleton.2 (inner.resolved around bears found formed old)⟩
  | .binary _ _ left right, found, formed, old | .logical _ left right, found, formed, old =>
    Site.everywhere_two trivial rfl (left.resolved around bears found.1 formed.1 (Old.append.1 old).1)
      (right.resolved around bears found.2 formed.2 (Old.append.1 old).2)
  | .assign _ value, found, formed, old => (Site.everywhere_expr _).2 ⟨formed.2,
      List.forall_mem_singleton.2 (value.resolved around bears found.1 formed.1 (Old.append.1 old).1)⟩
  | .call callee arguments _, found, formed, old => (Site.everywhere_expr _).2 ⟨trivial,
      List.forall_mem_cons.2 ⟨callee.resolved around bears found.1 formed.1 (Old.append.1 old).1,
        Expr.resolvedAll around bears arguments found.2 formed.2 (Old.append.1 old).2⟩⟩
  | .set object _ value, found, formed, old =>
    Site.everywhere_two trivial rfl (object.resolved around bears found.1 formed.1 (Old.append.1 old).2)
      (value.resolved around bears found.2 formed.2 (Old.append.1 old).1)
  | .self _ _, found, _, old => (Site.everywhere_expr _).2
      ⟨Site.resolved_self bears found.1 found.2 (old _ List.mem_cons_self), nofun⟩
  | .superMethod _ _ _, found, _, old => (Site.everywhere_expr _).2
      ⟨Site.resolved_superMethod bears found.1 found.2 (old _ List.mem_cons_self), nofun⟩

theorem Expr.resolvedAll (around : List Enclosure) {Γ : Scopes} (bears : Γ.Bears (layers around)) :
    (es : List Expr) → Expr.ScopedAll L (classContext around) Γ es → Expr.FormedAll Ordinary es →
      Old last (Expr.idsAll es) → ∀ e ∈ es, Everywhere (Resolved L last) ⟨.expr e, around⟩
  | [], _, _, _ => nofun
  | e :: rest, found, formed, old => List.forall_mem_cons.2
      ⟨e.resolved around bears found.1 formed.1 (Old.append.1 old).1,
        Expr.resolvedAll around bears rest found.2 formed.2 (Old.append.1 old).2⟩

end

/-- The parameters of all these functions are ordinary names. -/
theorem FunctionDecl.FormedAll.params {methods : List FunctionDecl}
    (formed : FunctionDecl.FormedAll Ordinary methods) :
    ∀ method ∈ methods, ∀ param ∈ method.params, Ordinary param.text := by
  induction methods with
  | nil => exact nofun
  | cons method rest ih =>
    obtain ⟨name, params, body⟩ := method
    exact List.forall_mem_cons.2 ⟨formed.1.2.1, ih formed.2⟩

mutual

theorem Stmt.resolved (around : List Enclosure) {Γ : Scopes} (bears : Γ.Bears (layers around)) : (s : Stmt) →
    s.Scoped L (surroundings around) Γ → s.Formed Ordinary → Old last s.ids →
      Everywhere (Resolved L last) ⟨.stmt s, around⟩
  | .expression e, found, formed, old | .print e, found, formed, old => Site.everywhere_iff.2
      ⟨trivial, List.forall_mem_singleton.2 (e.resolved around bears found formed old)⟩
  | .declare _ none, _, formed, _ => Site.everywhere_iff.2 ⟨formed, nofun⟩
  | .declare name (some e), found, formed, old => by
    -- an initializer makes no scope of its own
    have inner := e.resolved (.initializer name.text :: around) (bears.enter formed.1 false) found.2 formed.2 old
    exact Site.everywhere_iff.2 ⟨formed.1, List.forall_mem_singleton.2 inner⟩
  | .block body, found, formed, old => Site.everywhere_iff.2 ⟨trivial,
      List.forall_mem_map.2 (Stmt.resolvedAll (.block :: around) bears.block body found formed old)⟩
  | .branch condition thenBranch none, found, formed, old => by
    have tested := condition.resolved around bears found.1 formed.1 (Old.append.1 old).1
    have taken := thenBranch.resolved around bears found.2 formed.2.1 (Old.append.1 old).2
    exact Site.everywhere_iff.2 ⟨trivial, List.forall_mem_cons.2 ⟨tested, List.forall_mem_singleton.2 taken⟩⟩
  | .branch condition thenBranch (some elseBranch), found, formed, old => by
    obtain ⟨oldCondition, oldBranches⟩ := Old.append.1 old
    obtain ⟨oldThen, oldElse⟩ := Old.append.1 oldBranches
    have tested := condition.resolved around bears found.1 formed.1 oldCondition
    have taken := thenBranch.resolved around bears found.2.1 formed.2.1.1 oldThen
    have other := elseBranch.resolved around bears found.2.2 formed.2.2.1 oldElse
    exact Site.everywhere_iff.2 ⟨trivial,
      List.forall_mem_cons.2 ⟨tested, List.forall_mem_cons.2 ⟨taken, List.forall_mem_singleton.2 other⟩⟩⟩
  | .loop condition body, found, formed, old => by
    have tested := condition.resolved around bears found.1 formed.1 (Old.append.1 old).1
    have repeated := body.resolved around bears found.2 formed.2.1 (Old.append.1 old).2
    exact Site.everywhere_iff.2 ⟨trivial, List.forall_mem_cons.2 ⟨tested, List.forall_mem_singleton.2 repeated⟩⟩
  | .function ⟨name, params, body⟩, found, formed, old => by
    have bears := (bears.enter formed.1 true).params formed.2.1
    have inner := Stmt.resolvedAll (.functionBody :: around) bears body found.2.2 formed.2.2 old
    exact Site.everywhere_iff.2 ⟨⟨formed.1, formed.2.1⟩, List.forall_mem_map.2 inner⟩
  | .ret _ none, _, _, _ => Site.everywhere_iff.2 ⟨trivial, nofun⟩
  | .ret _ (some e), found, formed, old => Site.everywhere_iff.2
      ⟨trivial, List.forall_mem_singleton.2 (e.resolved around bears found.2.2 formed old)⟩
  | .classDef name none methods, found, formed, old => by
    have bears := (bears.enter formed.1 true).this
    have bodies := FunctionDecl.resolvedAll around none methods bears methods found.2 formed.2 old
    exact (Site.everywhere_class name none methods).2 ⟨⟨formed.1, formed.2.params⟩, nofun, bodies⟩
  | .classDef name (some superclass) methods, found, formed, old => by
    have bears := ((bears.enter formed.1 true).super superclass methods).this
    have bodies := FunctionDecl.resolvedAll around (some superclass) methods bears methods found.2.2.2 formed.2.2
      (List.forall_mem_cons.1 old).2
    exact (Site.everywhere_class name (some superclass) methods).2
      ⟨⟨formed.1, formed.2.2.params⟩, fun _ _ => trivial, bodies⟩

theorem Stmt.resolvedAll (around : List Enclosure) {Γ : Scopes} (bears : Γ.Bears (layers around)) :
    (ss : List Stmt) → Stmt.ScopedAll L (surroundings around) Γ ss → Stmt.FormedAll Ordinary ss →
      Old last (Stmt.idsAll ss) → ∀ s ∈ ss, Everywhere (Resolved L last) ⟨.stmt s, around⟩
  | [], _, _, _ => nofun
  | s :: rest, found, formed, old => List.forall_mem_cons.2
      ⟨s.resolved around bears found.1 formed.1 (Old.append.1 old).1,
        Stmt.resolvedAll around (bears.after formed.1) rest found.2 formed.2 (Old.append.1 old).2⟩

/-- The methods of a class, one after the other. -/
theorem FunctionDecl.resolvedAll (around : List Enclosure) {Γ : Scopes} (superclass : Option Reference)
    (methods : List FunctionDecl) (bears : Γ.Bears (layers (.classBody superclass methods :: around))) :
    (decls : List FunctionDecl) →
    FunctionDecl.ScopedAll L ⟨function, classContext (.classBody superclass methods :: around)⟩ Γ decls →
      FunctionDecl.FormedAll Ordinary decls → Old last (FunctionDecl.idsAll decls) →
      ∀ decl ∈ decls, ∀ s ∈ decl.body, Everywhere (Resolved L last)
        ⟨.stmt s, .methodBody decl.name.text :: .classBody superclass methods :: around⟩
  | [], _, _, _ => nofun
  | ⟨name, _, body⟩ :: rest, found, formed, old => List.forall_mem_cons.2
      ⟨Stmt.resolvedAll (.methodBody name.text :: .classBody superclass methods :: around)
          (bears.params formed.1.2.1) body found.1.2 formed.1.2.2 (Old.append.1 old).1,
        FunctionDecl.resolvedAll around superclass methods bears rest found.2 formed.2 (Old.append.1 old).2⟩

end
end Lox
