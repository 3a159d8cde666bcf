import Lox.Proofs.Resolution.Scoping

/-! The order in which resolution comes to the nodes of a program. It visits each of them once, so that
in a program whose nodes are new to the table no entry is written twice, with or without errors. -/
namespace Lox

/-- A node that resolution has come to, and the walk so far. -/
structure Visit where
  node : NodeId
  walk : Resolver

mutual

/-- The nodes of an expression, as its resolution comes to them. -/
def Expr.visits (around : Surroundings) : Expr → Resolver → List Visit
  | .literal _, _ => []
  | .group inner, r => inner.visits around r
  | .unary _ _ operand, r => operand.visits around r
  | .binary _ _ left right, r => left.visits around r ++ right.visits around (left.resolve around r)
  | .logical _ left right, r => left.visits around r ++ right.visits around (left.resolve around r)
  | .use ref, r => [⟨ref.id, r⟩]
  | .assign ref value, r => value.visits around r ++ [⟨ref.id, value.resolve around r⟩]
  | .call callee arguments _, r =>
    callee.visits around r ++ Expr.visitsAll around arguments (callee.resolve around r)
  | .get object _, r => object.visits around r
  | .set object _ value, r => value.visits around r ++ object.visits around (value.resolve around r)
  | .self id _, r => [⟨id, r⟩]
  | .superMethod id _ _, r => [⟨id, r⟩]

def Expr.visitsAll (around : Surroundings) : List Expr → Resolver → List Visit
  | [], _ => []
  | e :: rest, r => e.visits around r ++ Expr.visitsAll around rest (e.resolve around r)

end

mutual

/-- The nodes of a statement, as its resolution comes to them. -/
def Stmt.visits (around : Surroundings) : Stmt → Resolver → List Visit
  | .expression e, r => e.visits around r
  | .print e, r => e.visits around r
  | .declare _ none, _ => []
  | .declare name (some e), r => e.visits around (r.declare name)
  | .block body, r => Stmt.visitsAll around body (r.push [])
  | .branch condition thenBranch none, r =>
    condition.visits around r ++ thenBranch.visits around (condition.resolve around r)
  | .branch condition thenBranch (some elseBranch), r =>
    let s := condition.resolve around r
    condition.visits around r ++
      (thenBranch.visits around s ++ elseBranch.visits around (thenBranch.resolve around s))
  | .loop condition body, r => condition.visits around r ++ body.visits around (condition.resolve around r)
  | .function decl, r =>
    decl.visits { around with function := .function } ((r.declare decl.name).define decl.name)
  | .ret _ none, _ => []
  | .ret line (some e), r => e.visits around (r.checkReturn around line true)
  | .classDef name none methods, r =>
    let r := ((r.declare name).define name).push [(Names.this, true)]
    FunctionDecl.visitsMethods { around with enclosingClass := .plain } methods r
  | .classDef name (some superclass) methods, r =>
    let r := (r.declare name).define name
    let r := if superclass.name.text = name.text then
        r.report .inheritsFromItself superclass.name
      else r
    let s := ((r.use superclass).push [(Names.super, true)]).push [(Names.this, true)]
    ⟨superclass.id, r⟩ :: FunctionDecl.visitsMethods { around with enclosingClass := .subclass } methods s

def Stmt.visitsAll (around : Surroundings) : List Stmt → Resolver → List Visit
  | [], _ => []
  | s :: rest, r => s.visits around r ++ Stmt.visitsAll around rest (s.resolve around r)

def FunctionDecl.visits (around : Surroundings) : FunctionDecl → Resolver → List Visit
  | ⟨_, params, body⟩, r => Stmt.visitsAll around body ((r.push []).declareParams params)

def FunctionDecl.visitsMethods (around : Surroundings) : List FunctionDecl → Resolver → List Visit
  | [], _ => []
  | decl :: rest, r =>
    let within := { around with function := methodContext decl.name }
    decl.visits within r ++ FunctionDecl.visitsMethods around rest (decl.resolve within r)

end

/-- All entries of one table are in another. -/
def Locals.Kept (L K : Locals) : Prop := ∀ (node : NodeId) (d : Nat), L[node]? = some d → K[node]? = some d

theorem Locals.Kept.trans (first : Locals.Kept L K) (second : Locals.Kept K J) : L.Kept J :=
  fun node d known => second node d (first node d known)

namespace Resolver

/-- No entry is overwritten where the nodes are new. -/
theorem Extends.kept (ext : Extends ids r t) (unused : ∀ node ∈ ids, r.locals[node]? = none) :
    r.locals.Kept t.locals := by
  intro node d known
  by_cases member : node ∈ ids
  · rw [unused node member] at known
    cases known
  · rw [ext.others node member, known]

/-- A part of the walk that visits the given nodes once each. If they are new, then each of them is still
without an entry when it is visited, and no entry is lost in between. -/
structure Tour (ids : List NodeId) (visits : List Visit) (r t : Resolver) : Prop where
  ext : Extends ids r t
  nodes : visits.map (·.node) = ids
  entries : ids.Nodup → (∀ node ∈ ids, r.locals[node]? = none) → ∀ visit ∈ visits,
    visit.walk.locals[visit.node]? = none ∧ r.locals.Kept visit.walk.locals ∧
      visit.walk.locals.Kept t.locals

namespace Tour

private theorem still (ext : Extends [] r t) : Tour [] [] r t := ⟨ext, rfl, fun _ _ => nofun⟩

private theorem visit (ext : Extends [node] r t) : Tour [node] [⟨node, r⟩] r t := by
  refine ⟨ext, rfl, fun _ unused visit member => ?_⟩
  rw [List.mem_singleton] at member
  subst member
  exact ⟨unused node List.mem_cons_self, fun _ _ => id, ext.kept unused⟩

private theorem trans (first : Tour xs us r s) (second : Tour ys vs s t) : Tour (xs ++ ys) (us ++ vs) r t := by
  refine ⟨first.ext.trans second.ext, by rw [List.map_append, first.nodes, second.nodes], ?_⟩
  intro distinct unused visit member
  obtain ⟨left, right, apart⟩ := List.nodup_append.1 distinct
  have unusedLeft : ∀ node ∈ xs, r.locals[node]? = none := fun node member =>
    unused node (List.mem_append_left _ member)
  have unusedRight : ∀ node ∈ ys, s.locals[node]? = none := by
    intro node member
    have outside : node ∉ xs := fun both => apart node both node member rfl
    rw [first.ext.others node outside]
    exact unused node (List.mem_append_right _ member)
  rcases List.mem_append.1 member with early | late
  · obtain ⟨new, before, after⟩ := first.entries left unusedLeft visit early
    exact ⟨new, before, after.trans (second.ext.kept unusedRight)⟩
  · obtain ⟨new, before, after⟩ := second.entries right unusedRight visit late
    exact ⟨new, (first.ext.kept unusedLeft).trans before, after⟩

/-- Steps that leave the table alone come before and after. -/
theorem between (before : Extends [] r s) (tour : Tour ids visits s t) (after : Extends [] t u) :
    Tour ids visits r u := by
  have all := ((still before).trans tour).trans (still after)
  rwa [List.nil_append, List.nil_append, List.append_nil, List.append_nil] at all

end Tour
end Resolver

open Resolver

mutual

theorem Expr.resolve_tour (around : Surroundings) : (e : Expr) → (r : Resolver) →
    Tour e.ids (e.visits around r) r (e.resolve around r)
  | .literal _, r => .still (.refl r)
  | .group inner, r => inner.resolve_tour around r
  | .unary _ _ operand, r => operand.resolve_tour around r
  | .binary _ _ left right, r => (left.resolve_tour around r).trans (right.resolve_tour around _)
  | .logical _ left right, r => (left.resolve_tour around r).trans (right.resolve_tour around _)
  | .use ref, r => .visit (r.use_extends ref)
  | .assign _ value, r => (value.resolve_tour around r).trans (.visit (record_extends _ _ _))
  | .call callee arguments _, r =>
    (callee.resolve_tour around r).trans (Expr.resolveAll_tour around arguments _)
  | .get object _, r => object.resolve_tour around r
  | .set object _ value, r => (value.resolve_tour around r).trans (object.resolve_tour around _)
  | .self _ _, r => .visit (r.useThis_extends around)
  | .superMethod _ _ _, r => .visit (r.useSuper_extends around)

theorem Expr.resolveAll_tour (around : Surroundings) : (es : List Expr) → (r : Resolver) →
    Tour (Expr.idsAll es) (Expr.visitsAll around es r) r (Expr.resolveAll around es r)
  | [], r => .still (.refl r)
  | e :: rest, r => (e.resolve_tour around r).trans (Expr.resolveAll_tour around rest _)

end

mutual

theorem Stmt.resolve_tour (around : Surroundings) : (s : Stmt) → (r : Resolver) →
    Tour s.ids (s.visits around r) r (s.resolve around r)
  | .expression e, r => e.resolve_tour around r
  | .print e, r => e.resolve_tour around r
  | .declare name none, r => .still (r.declare_define_extends name)
  | .declare name (some e), r =>
    .between (r.declare_extends name) (e.resolve_tour around _) (define_extends _ name)
  | .block body, r => .between (r.push_extends []) (Stmt.resolveAll_tour around body _) (pop_extends _)
  | .branch condition thenBranch none, r =>
    (condition.resolve_tour around r).trans (thenBranch.resolve_tour around _)
  | .branch condition thenBranch (some elseBranch), r =>
    (condition.resolve_tour around r).trans
      ((thenBranch.resolve_tour around _).trans (elseBranch.resolve_tour around _))
  | .loop condition body, r => (condition.resolve_tour around r).trans (body.resolve_tour around _)
  | .function decl, r => .between (r.declare_define_extends decl.name) (decl.resolve_tour _ _) (.refl _)
  | .ret _ none, r => .still (r.checkReturn_extends around)
  | .ret _ (some e), r => .between (r.checkReturn_extends around) (e.resolve_tour around _) (.refl _)
  | .classDef name none methods, r =>
    .between ((r.declare_define_extends name).trans (push_extends _ thisScope))
      (FunctionDecl.resolveMethods_tour _ methods _) (pop_extends _)
  | .classDef name (some superclass) methods, r =>
    .between ((r.declare_define_extends name).trans (parent_extends _ name superclass))
      ((Tour.visit (use_extends _ superclass)).trans
        (.between ((push_extends _ superScope).trans (push_extends _ thisScope))
          (FunctionDecl.resolveMethods_tour _ methods _) (.refl _)))
      ((pop_extends _).trans (pop_extends _))

theorem Stmt.resolveAll_tour (around : Surroundings) : (ss : List Stmt) → (r : Resolver) →
    Tour (Stmt.idsAll ss) (Stmt.visitsAll around ss r) r (Stmt.resolveAll around ss r)
  | [], r => .still (.refl r)
  | s :: rest, r => (s.resolve_tour around r).trans (Stmt.resolveAll_tour around rest _)

theorem FunctionDecl.resolve_tour (around : Surroundings) : (decl : FunctionDecl) → (r : Resolver) →
    Tour decl.ids (decl.visits around r) r (decl.resolve around r)
  | ⟨_, params, body⟩, r =>
    .between ((r.push_extends []).trans (declareParams_extends _ params))
      (Stmt.resolveAll_tour around body _) (pop_extends _)

theorem FunctionDecl.resolveMethods_tour (around : Surroundings) : (decls : List FunctionDecl) →
    (r : Resolver) → Tour (FunctionDecl.idsAll decls) (FunctionDecl.visitsMethods around decls r) r
      (FunctionDecl.resolveMethods around decls r)
  | [], r => .still (.refl r)
  | decl :: rest, r => (decl.resolve_tour _ r).trans (FunctionDecl.resolveMethods_tour around rest _)

end

end Lox
