import Lox.Proofs.Table
import Lox.Proofs.Tree.Nodes

/-! What a program is like that resolution accepts. Every node that names a variable has its distance
in the table, counted in the scopes around that very node: `Scoped` says so, node by node, together
with the rules of scoping. Resolution of a tree whose nodes have fresh identities establishes it. -/
namespace Lox

/-- The local scopes around a node, the innermost first. -/
abbrev Scopes := List (Table Bool)

namespace Scopes

/-- The scopes once a name is in the innermost one. -/
def enter (name : Text) (ready : Bool) : Scopes → Scopes
  | [] => []
  | top :: outer => top.insert name ready :: outer

/-- The innermost scope does not have the name yet. -/
def Free (Γ : Scopes) (name : Text) : Prop := ∀ top ∈ Γ.head?, top.find? name = none

/-- The name is not being initialized. -/
def Ready (Γ : Scopes) (name : Text) : Prop := ∀ top ∈ Γ.head?, top.find? name ≠ some false

theorem enter_enter (Γ : Scopes) (name : Text) (a b : Bool) :
    (Γ.enter name a).enter name b = Γ.enter name b := by
  cases Γ with
  | nil => rfl
  | cons top outer => simp [enter, Table.insert_insert]

@[simp] theorem tail_enter (Γ : Scopes) : (Γ.enter name ready).tail = Γ.tail := by cases Γ <;> rfl

@[simp] theorem length_enter (Γ : Scopes) : (Γ.enter name ready).length = Γ.length := by cases Γ <;> rfl

end Scopes

/-- The table has the distance of a name under a node. -/
def Locals.Records (L : Locals) (Γ : Scopes) (id : NodeId) (name : Text) : Prop :=
  L[id]? = Resolver.distance? Γ name

/-- The scopes after a statement. -/
def Stmt.after (Γ : Scopes) (s : Stmt) : Scopes :=
  match s.declared? with
  | none => Γ
  | some name => Γ.enter name true

theorem Stmt.after_eq (s : Stmt) (still : s.declared? = none) (Γ : Scopes) : s.after Γ = Γ := by
  rw [Stmt.after, still]

@[simp] theorem Stmt.tail_after (s : Stmt) (Γ : Scopes) : (s.after Γ).tail = Γ.tail := by
  unfold Stmt.after
  split
  · rfl
  · exact Scopes.tail_enter Γ

theorem Stmt.isEmpty_after (s : Stmt) (Γ : Scopes) : (s.after Γ).isEmpty = Γ.isEmpty := by
  unfold Stmt.after
  split
  · rfl
  · cases Γ <;> rfl

def Stmt.afterAll (Γ : Scopes) (ss : List Stmt) : Scopes := ss.foldl Stmt.after Γ

@[simp] theorem Stmt.tail_afterAll (ss : List Stmt) (Γ : Scopes) : (Stmt.afterAll Γ ss).tail = Γ.tail := by
  induction ss generalizing Γ with
  | nil => rfl
  | cons s rest ih => exact (ih _).trans (s.tail_after Γ)

/-- At top level there are no local scopes to enter a name into. -/
theorem Stmt.afterAll_nil (ss : List Stmt) : Stmt.afterAll [] ss = [] := by
  induction ss with
  | nil => rfl
  | cons s rest ih => cases s <;> exact ih

/-- The scope of a function's parameters. -/
def paramScope (params : List Ident) : Table Bool :=
  params.foldl (fun table param => table.insert param.text true) []

/-- It has the names of the parameters, all of them ready. -/
theorem find?_paramScope (params : List Ident) (name : Text) :
    (paramScope params).find? name = if name ∈ params.map (·.text) then some true else none := by
  suffices step : ∀ table : Table Bool,
      (params.foldl (fun table param => table.insert param.text true) table).find? name =
        if name ∈ params.map (·.text) then some true else table.find? name from step []
  induction params with
  | nil => simp
  | cons param rest ih =>
    intro table
    rw [List.foldl_cons, ih, Table.find?_insert]
    by_cases later : name ∈ rest.map (·.text)
    · simp [later]
    · by_cases here : param.text = name
      · simp [here]
      · have apart : ¬ name = param.text := fun same => here same.symm
        simp only [later, here, if_false, List.map_cons, List.mem_cons, apart, or_self]

/-- The scope of methods, and the one around it in a class with a superclass. -/
def thisScope : Table Bool := [(Names.this, true)]

def superScope : Table Bool := [(Names.super, true)]

mutual

/-- An expression in its scopes, with `L` as the table of distances. -/
def Expr.Scoped (L : Locals) (within : ClassContext) (Γ : Scopes) : Expr → Prop
  | .literal _ => True
  | .group inner => inner.Scoped L within Γ
  | .unary _ _ operand => operand.Scoped L within Γ
  | .binary _ _ left right => left.Scoped L within Γ ∧ right.Scoped L within Γ
  | .logical _ left right => left.Scoped L within Γ ∧ right.Scoped L within Γ
  | .use ref => L.Records Γ ref.id ref.name.text ∧ Γ.Ready ref.name.text
  | .assign ref value => value.Scoped L within Γ ∧ L.Records Γ ref.id ref.name.text
  | .call callee arguments _ => callee.Scoped L within Γ ∧ Expr.ScopedAll L within Γ arguments
  | .get object _ => object.Scoped L within Γ
  | .set object _ value => object.Scoped L within Γ ∧ value.Scoped L within Γ
  | .self id _ => within ≠ .outside ∧ L.Records Γ id Names.this
  | .superMethod id _ _ => within = .subclass ∧ L.Records Γ id Names.super

def Expr.ScopedAll (L : Locals) (within : ClassContext) (Γ : Scopes) : List Expr → Prop
  | [] => True
  | e :: rest => e.Scoped L within Γ ∧ Expr.ScopedAll L within Γ rest

end

mutual

/-- A statement in its scopes. A name is declared once in a scope; a return stands in a function, and
in an initializer it has no value. -/
def Stmt.Scoped (L : Locals) (around : Surroundings) (Γ : Scopes) : Stmt → Prop
  | .expression e => e.Scoped L around.enclosingClass Γ
  | .print e => e.Scoped L around.enclosingClass Γ
  | .declare name none => Γ.Free name.text
  | .declare name (some e) =>
    Γ.Free name.text ∧ e.Scoped L around.enclosingClass (Γ.enter name.text false)
  | .block body => Stmt.ScopedAll L around ([] :: Γ) body
  | .branch condition thenBranch none =>
    condition.Scoped L around.enclosingClass Γ ∧ thenBranch.Scoped L around Γ
  | .branch condition thenBranch (some elseBranch) =>
    condition.Scoped L around.enclosingClass Γ ∧ thenBranch.Scoped L around Γ ∧
      elseBranch.Scoped L around Γ
  | .loop condition body => condition.Scoped L around.enclosingClass Γ ∧ body.Scoped L around Γ
  | .function decl => Γ.Free decl.name.text ∧
    decl.Scoped L { around with function := .function } (Γ.enter decl.name.text true)
  | .ret _ none => around.function ≠ .topLevel
  | .ret _ (some e) => around.function ≠ .topLevel ∧ around.function ≠ .initializer ∧
    e.Scoped L around.enclosingClass Γ
  | .classDef name none methods => Γ.Free name.text ∧
    FunctionDecl.ScopedAll L { around with enclosingClass := .plain }
      (thisScope :: Γ.enter name.text true) methods
  | .classDef name (some superclass) methods => Γ.Free name.text ∧
    superclass.name.text ≠ name.text ∧
    (L.Records (Γ.enter name.text true) superclass.id superclass.name.text ∧
      (Γ.enter name.text true).Ready superclass.name.text) ∧
    FunctionDecl.ScopedAll L { around with enclosingClass := .subclass }
      (thisScope :: superScope :: Γ.enter name.text true) methods

def Stmt.ScopedAll (L : Locals) (around : Surroundings) (Γ : Scopes) : List Stmt → Prop
  | [] => True
  | s :: rest => s.Scoped L around Γ ∧ Stmt.ScopedAll L around (s.after Γ) rest

/-- The parameters have different names and share a scope with the body. -/
def FunctionDecl.Scoped (L : Locals) (around : Surroundings) (Γ : Scopes) : FunctionDecl → Prop
  | ⟨_, params, body⟩ => (params.map (·.text)).Nodup ∧
    Stmt.ScopedAll L around (paramScope params :: Γ) body

def FunctionDecl.ScopedAll (L : Locals) (around : Surroundings) (Γ : Scopes) :
    List FunctionDecl → Prop
  | [] => True
  | decl :: rest => decl.Scoped L { around with function := methodContext decl.name } Γ ∧
    FunctionDecl.ScopedAll L around Γ rest

end

def Code.Scoped (L : Locals) (around : Surroundings) (Γ : Scopes) : Code → Prop
  | .expr e => e.Scoped L around.enclosingClass Γ
  | .exprs es => Expr.ScopedAll L around.enclosingClass Γ es
  | .stmt s => s.Scoped L around Γ
  | .stmts ss => Stmt.ScopedAll L around Γ ss
  | .function decl => decl.Scoped L around Γ
  | .functions decls => FunctionDecl.ScopedAll L around Γ decls

/-! What the single steps of resolution do. -/

namespace Resolver

/-- From one state of the walk to a later one: errors stay, and only the distances of the given nodes
are added. -/
structure Extends (ids : List NodeId) (r t : Resolver) : Prop where
  clean : t.errors = [] → r.errors = []
  others : ∀ id, id ∉ ids → t.locals[id]? = r.locals[id]?

theorem Extends.refl (r : Resolver) : Extends [] r r := ⟨id, fun _ _ => rfl⟩

theorem Extends.trans (first : Extends xs r s) (second : Extends ys s t) : Extends (xs ++ ys) r t := by
  refine ⟨first.clean ∘ second.clean, fun id outside => ?_⟩
  rw [List.mem_append, not_or] at outside
  rw [second.others id outside.2, first.others id outside.1]

theorem declare_scopes (r : Resolver) (name : Ident) :
    (r.declare name).scopes = Scopes.enter name.text false r.scopes := by
  unfold declare
  split
  · rename_i none
    rw [none]
    rfl
  · rename_i top outer some
    simp only [some, Scopes.enter]

theorem define_scopes (r : Resolver) (name : Ident) :
    (r.define name).scopes = Scopes.enter name.text true r.scopes := by
  unfold define
  split
  · rename_i none
    rw [none]
    rfl
  · rename_i top outer some
    simp only [some, Scopes.enter]

private theorem report_extends (r : Resolver) : Extends [] r (r.report cause name) :=
  ⟨fun none => absurd none (by simp [report]), fun _ _ => rfl⟩

private theorem report_not_clean (r : Resolver) : (r.report cause name).errors ≠ [] := by simp [report]

theorem declare_extends (r : Resolver) (name : Ident) : Extends [] r (r.declare name) := by
  unfold declare
  split
  · exact .refl r
  · split
    · exact ⟨fun clean => absurd clean (report_not_clean r), fun _ _ => rfl⟩
    · exact ⟨id, fun _ _ => rfl⟩

theorem free_of_declare {r : Resolver} {name : Ident} (clean : (r.declare name).errors = []) :
    Scopes.Free r.scopes name.text := by
  intro top first
  unfold declare at clean
  split at clean
  · rename_i none
    simp [none] at first
  · rename_i top' outer some
    simp only [some, List.head?_cons, Option.mem_def, Option.some.injEq] at first
    subst first
    by_cases taken : top'.contains name.text
    · rw [if_pos taken] at clean
      exact absurd clean (report_not_clean r)
    · simpa [Table.contains] using taken

theorem define_extends (r : Resolver) (name : Ident) : Extends [] r (r.define name) := by
  unfold define
  split
  · exact .refl r
  · exact ⟨id, fun _ _ => rfl⟩

theorem push_extends (r : Resolver) (scope : Table Bool) : Extends [] r (r.push scope) :=
  ⟨id, fun _ _ => rfl⟩

theorem pop_extends (r : Resolver) : Extends [] r r.pop := ⟨id, fun _ _ => rfl⟩

@[simp] theorem record_scopes (r : Resolver) (node : NodeId) (name : Text) :
    (r.record node name).scopes = r.scopes := by
  unfold record
  split <;> rfl

theorem record_extends (r : Resolver) (node : NodeId) (name : Text) : Extends [node] r (r.record node name) := by
  unfold record
  split
  · exact ⟨fun clean => clean, fun _ _ => rfl⟩
  · refine ⟨fun clean => clean, fun other outside => ?_⟩
    have differ : ¬ node = other := fun same => outside (by simp [same])
    simp only [Std.TreeMap.getElem?_insert, Nat.compare_eq_eq, differ, if_false]

private theorem record_records (r : Resolver) (unused : r.locals[node]? = none) :
    (r.record node name).locals.Records r.scopes node name := by
  unfold record Locals.Records
  split
  · rename_i none
    rw [none, unused]
  · rename_i d some
    simp [some]

theorem use_scopes (r : Resolver) (ref : Reference) : (r.use ref).scopes = r.scopes := by
  simp only [use, record_scopes]
  split <;> rfl

theorem use_extends (r : Resolver) (ref : Reference) : Extends [ref.id] r (r.use ref) := by
  simp only [use]
  split
  · exact (report_extends r).trans (record_extends _ _ _)
  · exact record_extends _ _ _

theorem ready_of_use {r : Resolver} (clean : (r.use ref).errors = []) :
    Scopes.Ready r.scopes ref.name.text := by
  intro top first pending
  simp only [use] at clean
  rw [if_pos (by simp [Option.mem_def.1 first, pending])] at clean
  exact report_not_clean r ((record_extends _ _ _).clean clean)

private theorem use_records (r : Resolver) (unused : r.locals[ref.id]? = none) :
    (r.use ref).locals.Records r.scopes ref.id ref.name.text := by
  simp only [use]
  split
  · exact record_records (r.report _ _) unused
  · exact record_records r unused

private theorem useThis_scopes (r : Resolver) (around : Surroundings) :
    (r.useThis around node line).scopes = r.scopes := by
  unfold useThis
  split
  · rfl
  · exact record_scopes _ _ _

theorem useThis_extends (r : Resolver) (around : Surroundings) :
    Extends [node] r (r.useThis around node line) := by
  unfold useThis
  split
  · exact ⟨(report_extends r).clean, fun _ _ => rfl⟩
  · exact record_extends _ _ _

private theorem useThis_records {r : Resolver} (clean : (r.useThis around node line).errors = [])
    (unused : r.locals[node]? = none) : around.enclosingClass ≠ .outside ∧
      (r.useThis around node line).locals.Records r.scopes node Names.this := by
  unfold useThis at clean ⊢
  split at clean
  · exact absurd clean (report_not_clean r)
  · rename_i inside
    exact ⟨inside, record_records r unused⟩

private theorem useSuper_scopes (r : Resolver) (around : Surroundings) :
    (r.useSuper around node line).scopes = r.scopes := by
  simp only [useSuper]
  rw [record_scopes]
  split <;> rfl

theorem useSuper_extends (r : Resolver) (around : Surroundings) :
    Extends [node] r (r.useSuper around node line) := by
  simp only [useSuper]
  split
  · exact (report_extends r).trans (record_extends _ _ _)
  · exact (report_extends r).trans (record_extends _ _ _)
  · exact record_extends _ _ _

private theorem useSuper_records {r : Resolver} (clean : (r.useSuper around node line).errors = [])
    (unused : r.locals[node]? = none) : around.enclosingClass = .subclass ∧
      (r.useSuper around node line).locals.Records r.scopes node Names.super := by
  simp only [useSuper] at clean ⊢
  have before := (record_extends _ _ _).clean clean
  split at before
  · exact absurd before (report_not_clean r)
  · exact absurd before (report_not_clean r)
  · rename_i inside
    rw [inside]
    exact ⟨rfl, record_records r unused⟩

theorem checkReturn_scopes (r : Resolver) (around : Surroundings) :
    (r.checkReturn around line hasValue).scopes = r.scopes := by
  simp only [checkReturn]
  split
  · rfl
  · split <;> rfl
  · rfl

theorem checkReturn_extends (r : Resolver) (around : Surroundings) :
    Extends [] r (r.checkReturn around line hasValue) := by
  simp only [checkReturn]
  split
  · exact report_extends r
  · split
    · exact report_extends r
    · exact .refl r
  · exact .refl r

theorem allowed_of_checkReturn {r : Resolver} (clean : (r.checkReturn around line hasValue).errors = []) :
    around.function ≠ .topLevel ∧ (hasValue = true → around.function ≠ .initializer) := by
  simp only [checkReturn] at clean
  split at clean
  · exact absurd clean (report_not_clean r)
  · rename_i inside
    refine ⟨by simp [inside], fun value => ?_⟩
    rw [if_pos value] at clean
    exact absurd clean (report_not_clean r)
  · rename_i notTop notInit
    exact ⟨notTop, fun _ => notInit⟩

theorem declare_define_scopes (r : Resolver) (name : Ident) :
    ((r.declare name).define name).scopes = Scopes.enter name.text true r.scopes := by
  rw [define_scopes, declare_scopes, Scopes.enter_enter]

theorem declare_define_extends (r : Resolver) (name : Ident) :
    Extends [] r ((r.declare name).define name) :=
  (declare_extends r name).trans (define_extends _ name)

private theorem free_of_declare_define {r : Resolver} {name : Ident}
    (clean : ((r.declare name).define name).errors = []) : Scopes.Free r.scopes name.text :=
  free_of_declare ((define_extends _ name).clean clean)

/-- The walk after the check that a class does not inherit from itself. -/
theorem parent_extends (r : Resolver) (name : Ident) (superclass : Reference) :
    Extends [] r (if superclass.name.text = name.text then r.report .inheritsFromItself superclass.name
      else r) := by
  split
  · exact report_extends r
  · exact .refl r

theorem declareParams_extends (r : Resolver) (params : List Ident) :
    Extends [] r (r.declareParams params) := by
  induction params generalizing r with
  | nil => exact .refl r
  | cons param rest ih => exact (declare_define_extends r param).trans (ih _)

private theorem declareParams_scopes {r : Resolver} (here : r.scopes = top :: outer) (params : List Ident) :
    (r.declareParams params).scopes =
      params.foldl (fun table param => table.insert param.text true) top :: outer := by
  induction params generalizing r top with
  | nil => exact here
  | cons param rest ih =>
    refine ih ?_
    rw [declare_define_scopes, here]
    rfl

private theorem distinct_of_declareParams {r : Resolver} {params : List Ident} (here : r.scopes = top :: outer)
    (clean : (r.declareParams params).errors = []) :
    (params.map (·.text)).Nodup ∧ ∀ param ∈ params, top.find? param.text = none := by
  induction params generalizing r top with
  | nil => exact ⟨.nil, nofun⟩
  | cons param rest ih =>
    have next : ((r.declare param).define param).scopes = top.insert param.text true :: outer := by
      rw [declare_define_scopes, here]
      rfl
    have first : top.find? param.text = none :=
      free_of_declare_define ((declareParams_extends _ rest).clean clean) top (by simp [here])
    obtain ⟨distinct, others⟩ := ih next clean
    refine ⟨?_, ?_⟩
    · rw [List.map_cons, List.nodup_cons]
      refine ⟨fun member => ?_, distinct⟩
      obtain ⟨twin, later, same⟩ := List.mem_map.1 member
      have taken := others twin later
      simp [same] at taken
    · intro other member
      rcases List.mem_cons.1 member with rfl | later
      · exact first
      · have unbound := others other later
        rw [Table.find?_insert] at unbound
        split at unbound
        · cases unbound
        · exact unbound

end Resolver

/-! What resolution does to the walk as a whole. -/

mutual

theorem Expr.resolve_scopes (around : Surroundings) : (e : Expr) → (r : Resolver) →
    (e.resolve around r).scopes = r.scopes
  | .literal _, _ => rfl
  | .group inner, r => inner.resolve_scopes around r
  | .unary _ _ operand, r => operand.resolve_scopes around r
  | .binary _ _ left right, r =>
    (right.resolve_scopes around _).trans (left.resolve_scopes around r)
  | .logical _ left right, r =>
    (right.resolve_scopes around _).trans (left.resolve_scopes around r)
  | .use ref, r => r.use_scopes ref
  | .assign _ value, r => (Resolver.record_scopes _ _ _).trans (value.resolve_scopes around r)
  | .call callee arguments _, r =>
    (Expr.resolveAll_scopes around arguments _).trans (callee.resolve_scopes around r)
  | .get object _, r => object.resolve_scopes around r
  | .set object _ value, r =>
    (object.resolve_scopes around _).trans (value.resolve_scopes around r)
  | .self _ _, r => r.useThis_scopes around
  | .superMethod _ _ _, r => r.useSuper_scopes around

theorem Expr.resolveAll_scopes (around : Surroundings) : (es : List Expr) → (r : Resolver) →
    (Expr.resolveAll around es r).scopes = r.scopes
  | [], _ => rfl
  | e :: rest, r => (Expr.resolveAll_scopes around rest _).trans (e.resolve_scopes around r)

end

mutual

theorem Expr.resolve_extends (around : Surroundings) : (e : Expr) → (r : Resolver) →
    r.Extends e.ids (e.resolve around r)
  | .literal _, r => .refl r
  | .group inner, r => inner.resolve_extends around r
  | .unary _ _ operand, r => operand.resolve_extends around r
  | .binary _ _ left right, r => (left.resolve_extends around r).trans (right.resolve_extends around _)
  | .logical _ left right, r => (left.resolve_extends around r).trans (right.resolve_extends around _)
  | .use ref, r => r.use_extends ref
  | .assign _ value, r => (value.resolve_extends around r).trans (Resolver.record_extends _ _ _)
  | .call callee arguments _, r =>
    (callee.resolve_extends around r).trans (Expr.resolveAll_extends around arguments _)
  | .get object _, r => object.resolve_extends around r
  | .set object _ value, r => (value.resolve_extends around r).trans (object.resolve_extends around _)
  | .self _ _, r => r.useThis_extends around
  | .superMethod _ _ _, r => r.useSuper_extends around

theorem Expr.resolveAll_extends (around : Surroundings) : (es : List Expr) → (r : Resolver) →
    r.Extends (Expr.idsAll es) (Expr.resolveAll around es r)
  | [], r => .refl r
  | e :: rest, r => (e.resolve_extends around r).trans (Expr.resolveAll_extends around rest _)

end

mutual

theorem Stmt.resolve_scopes (around : Surroundings) : (s : Stmt) → s.Formed ok → (r : Resolver) →
    (s.resolve around r).scopes = s.after r.scopes
  | .expression e, _, r => e.resolve_scopes around r
  | .print e, _, r => e.resolve_scopes around r
  | .declare name none, _, r => r.declare_define_scopes name
  | .declare name (some e), _, r => by
    simp only [Stmt.resolve, Resolver.define_scopes, e.resolve_scopes, Resolver.declare_scopes,
      Scopes.enter_enter, Stmt.after, Stmt.declared?]
  | .block body, formed, r => by
    simp only [Stmt.resolve, Resolver.pop, Stmt.resolveAll_scopes around body formed, Stmt.tail_afterAll]
    rfl
  | .branch condition thenBranch none, ⟨_, formed, still⟩, r => by
    rw [Stmt.resolve, thenBranch.resolve_scopes around formed, thenBranch.after_eq still,
      condition.resolve_scopes]
    rfl
  | .branch condition thenBranch (some elseBranch), ⟨_, ⟨formed, still⟩, formed', still'⟩, r => by
    rw [Stmt.resolve, elseBranch.resolve_scopes around formed', elseBranch.after_eq still',
      thenBranch.resolve_scopes around formed, thenBranch.after_eq still, condition.resolve_scopes]
    rfl
  | .loop condition body, ⟨_, formed, still⟩, r => by
    rw [Stmt.resolve, body.resolve_scopes around formed, body.after_eq still, condition.resolve_scopes]
    rfl
  | .function decl, formed, r => by
    simp only [Stmt.resolve, decl.resolve_scopes _ formed, Resolver.declare_define_scopes, Stmt.after,
      Stmt.declared?]
  | .ret _ none, _, r => r.checkReturn_scopes around
  | .ret _ (some e), _, r => (e.resolve_scopes around _).trans (r.checkReturn_scopes around)
  | .classDef name none methods, ⟨_, formed⟩, r => by
    simp only [Stmt.resolve, Resolver.pop, FunctionDecl.resolveMethods_scopes _ methods formed]
    exact r.declare_define_scopes name
  | .classDef name (some superclass) methods, ⟨_, _, formed⟩, r => by
    simp only [Stmt.resolve, Resolver.pop, FunctionDecl.resolveMethods_scopes _ methods formed,
      Resolver.push, List.tail_cons, Resolver.use_scopes]
    split
    · exact r.declare_define_scopes name
    · exact r.declare_define_scopes name

theorem Stmt.resolveAll_scopes (around : Surroundings) : (ss : List Stmt) → Stmt.FormedAll ok ss →
    (r : Resolver) → (Stmt.resolveAll around ss r).scopes = Stmt.afterAll r.scopes ss
  | [], _, _ => rfl
  | s :: rest, ⟨formed, others⟩, r => by
    simp only [Stmt.resolveAll, Stmt.resolveAll_scopes around rest others,
      s.resolve_scopes around formed, Stmt.afterAll, List.foldl_cons]

theorem FunctionDecl.resolve_scopes (around : Surroundings) : (decl : FunctionDecl) → decl.Formed ok →
    (r : Resolver) → (decl.resolve around r).scopes = r.scopes
  | ⟨_, params, body⟩, ⟨_, _, formed⟩, r => by
    simp only [FunctionDecl.resolve, Resolver.pop, Stmt.resolveAll_scopes around body formed,
      Stmt.tail_afterAll]
    rw [Resolver.declareParams_scopes rfl]
    rfl

theorem FunctionDecl.resolveMethods_scopes (around : Surroundings) : (decls : List FunctionDecl) →
    FunctionDecl.FormedAll ok decls → (r : Resolver) →
    (FunctionDecl.resolveMethods around decls r).scopes = r.scopes
  | [], _, _ => rfl
  | decl :: rest, ⟨formed, others⟩, r => by
    simp only [FunctionDecl.resolveMethods, FunctionDecl.resolveMethods_scopes around rest others,
      decl.resolve_scopes _ formed]

end

mutual

theorem Stmt.resolve_extends (around : Surroundings) : (s : Stmt) → (r : Resolver) →
    r.Extends s.ids (s.resolve around r)
  | .expression e, r => e.resolve_extends around r
  | .print e, r => e.resolve_extends around r
  | .declare name none, r => r.declare_define_extends name
  | .declare name (some e), r => by
    have all := (r.declare_extends name).trans
      ((e.resolve_extends around _).trans (Resolver.define_extends _ name))
    rwa [List.nil_append, List.append_nil] at all
  | .block body, r => by
    have all := (r.push_extends []).trans
      ((Stmt.resolveAll_extends around body _).trans (Resolver.pop_extends _))
    rwa [List.nil_append, List.append_nil] at all
  | .branch condition thenBranch none, r =>
    (condition.resolve_extends around r).trans (thenBranch.resolve_extends around _)
  | .branch condition thenBranch (some elseBranch), r =>
    (condition.resolve_extends around r).trans
      ((thenBranch.resolve_extends around _).trans (elseBranch.resolve_extends around _))
  | .loop condition body, r => (condition.resolve_extends around r).trans (body.resolve_extends around _)
  | .function decl, r => (r.declare_define_extends decl.name).trans (decl.resolve_extends _ _)
  | .ret _ none, r => r.checkReturn_extends around
  | .ret _ (some e), r => (r.checkReturn_extends around).trans (e.resolve_extends around _)
  | .classDef name none methods, r => by
    have all := (r.declare_define_extends name).trans ((Resolver.push_extends _ thisScope).trans
      ((FunctionDecl.resolveMethods_extends { around with enclosingClass := .plain } methods _).trans
        (Resolver.pop_extends _)))
    rwa [List.nil_append, List.nil_append, List.append_nil] at all
  | .classDef name (some superclass) methods, r => by
    have all := (r.declare_define_extends name).trans ((Resolver.parent_extends _ name superclass).trans
      ((Resolver.use_extends _ superclass).trans ((Resolver.push_extends _ superScope).trans
        ((Resolver.push_extends _ thisScope).trans
          ((FunctionDecl.resolveMethods_extends { around with enclosingClass := .subclass } methods _).trans
            ((Resolver.pop_extends _).trans (Resolver.pop_extends _)))))))
    simp only [List.nil_append, List.append_nil, List.singleton_append] at all
    exact all

theorem Stmt.resolveAll_extends (around : Surroundings) : (ss : List Stmt) → (r : Resolver) →
    r.Extends (Stmt.idsAll ss) (Stmt.resolveAll around ss r)
  | [], r => .refl r
  | s :: rest, r => (s.resolve_extends around r).trans (Stmt.resolveAll_extends around rest _)

theorem FunctionDecl.resolve_extends (around : Surroundings) : (decl : FunctionDecl) →
    (r : Resolver) → r.Extends decl.ids (decl.resolve around r)
  | ⟨_, params, body⟩, r => by
    have all := (r.push_extends []).trans ((Resolver.declareParams_extends _ params).trans
      ((Stmt.resolveAll_extends around body _).trans (Resolver.pop_extends _)))
    rwa [List.nil_append, List.nil_append, List.append_nil] at all

theorem FunctionDecl.resolveMethods_extends (around : Surroundings) : (decls : List FunctionDecl) →
    (r : Resolver) → r.Extends (FunctionDecl.idsAll decls) (FunctionDecl.resolveMethods around decls r)
  | [], r => .refl r
  | decl :: rest, r =>
    (decl.resolve_extends _ r).trans (FunctionDecl.resolveMethods_extends around rest _)

end

/-! A clean walk over nodes that are new to the table records each of them. -/

/-- A clean walk from `r` to `t` over the given nodes, of which none was in the table before; `L` has
what the walk recorded for them. -/
structure Resolver.Fills (L : Locals) (ids : List NodeId) (r t : Resolver) : Prop where
  clean : t.errors = []
  distinct : ids.Nodup
  unused : ∀ id ∈ ids, r.locals[id]? = none
  agrees : ∀ id ∈ ids, L[id]? = t.locals[id]?

namespace Resolver.Fills

private theorem split {r s t : Resolver} (fills : Fills L (xs ++ ys) r t) (first : r.Extends xs s)
    (second : s.Extends ys t) : Fills L xs r s ∧ Fills L ys s t := by
  obtain ⟨left, right, disjoint⟩ := List.nodup_append.1 fills.distinct
  refine ⟨⟨second.clean fills.clean, left, ?_, ?_⟩, ⟨fills.clean, right, ?_, ?_⟩⟩
  · exact fun id member => fills.unused id (List.mem_append_left _ member)
  · intro id member
    rw [fills.agrees id (List.mem_append_left _ member), second.others]
    exact fun later => disjoint id member id later rfl
  · intro id member
    rw [first.others, fills.unused id (List.mem_append_right _ member)]
    exact fun earlier => disjoint id earlier id member rfl
  · exact fun id member => fills.agrees id (List.mem_append_right _ member)

/-- A first part of the walk that records nothing. -/
theorem before {r s t : Resolver} (fills : Fills L ids r t) (first : r.Extends [] s)
    (second : s.Extends ids t) : s.errors = [] ∧ Fills L ids s t := by
  have parts := split (List.nil_append ids ▸ fills) first second
  exact ⟨parts.1.clean, parts.2⟩

/-- A last part of the walk that records nothing. -/
theorem upTo {r s t : Resolver} (fills : Fills L ids r t) (first : r.Extends ids s)
    (second : s.Extends [] t) : Fills L ids r s :=
  (split ((List.append_nil ids).symm ▸ fills) first second).1

private theorem records (fills : Fills L [node] r t) (recorded : t.locals.Records Γ node name) :
    L.Records Γ node name :=
  (fills.agrees node (List.mem_singleton.2 rfl)).trans recorded

end Resolver.Fills

mutual

theorem Expr.resolve_scoped (around : Surroundings) : (e : Expr) → (r : Resolver) →
    r.Fills L e.ids (e.resolve around r) → e.Scoped L around.enclosingClass r.scopes
  | .literal _, _, _ => trivial
  | .group inner, r, fills => inner.resolve_scoped around r fills
  | .unary _ _ operand, r, fills => operand.resolve_scoped around r fills
  | .binary _ _ left right, r, fills => by
    obtain ⟨first, second⟩ := fills.split (left.resolve_extends around r) (right.resolve_extends around _)
    have found := right.resolve_scoped around _ second
    rw [left.resolve_scopes] at found
    exact ⟨left.resolve_scoped around r first, found⟩
  | .logical _ left right, r, fills => by
    obtain ⟨first, second⟩ := fills.split (left.resolve_extends around r) (right.resolve_extends around _)
    have found := right.resolve_scoped around _ second
    rw [left.resolve_scopes] at found
    exact ⟨left.resolve_scoped around r first, found⟩
  | .use ref, r, fills =>
    ⟨fills.records (r.use_records (fills.unused _ (List.mem_singleton.2 rfl))),
      Resolver.ready_of_use fills.clean⟩
  | .assign ref value, r, fills => by
    obtain ⟨first, second⟩ := fills.split (value.resolve_extends around r)
      (Resolver.record_extends _ ref.id ref.name.text)
    have recorded := second.records
      (Resolver.record_records _ (second.unused _ (List.mem_singleton.2 rfl)))
    rw [value.resolve_scopes] at recorded
    exact ⟨value.resolve_scoped around r first, recorded⟩
  | .call callee arguments _, r, fills => by
    obtain ⟨first, second⟩ := fills.split (callee.resolve_extends around r)
      (Expr.resolveAll_extends around arguments _)
    have found := Expr.resolveAll_scoped around arguments _ second
    rw [callee.resolve_scopes] at found
    exact ⟨callee.resolve_scoped around r first, found⟩
  | .get object _, r, fills => object.resolve_scoped around r fills
  | .set object _ value, r, fills => by
    obtain ⟨first, second⟩ := fills.split (value.resolve_extends around r) (object.resolve_extends around _)
    have found := object.resolve_scoped around _ second
    rw [value.resolve_scopes] at found
    exact ⟨found, value.resolve_scoped around r first⟩
  | .self _ _, r, fills => by
    obtain ⟨inside, recorded⟩ :=
      Resolver.useThis_records fills.clean (fills.unused _ (List.mem_singleton.2 rfl))
    exact ⟨inside, fills.records recorded⟩
  | .superMethod _ _ _, r, fills => by
    obtain ⟨inside, recorded⟩ :=
      Resolver.useSuper_records fills.clean (fills.unused _ (List.mem_singleton.2 rfl))
    exact ⟨inside, fills.records recorded⟩

theorem Expr.resolveAll_scoped (around : Surroundings) : (es : List Expr) → (r : Resolver) →
    r.Fills L (Expr.idsAll es) (Expr.resolveAll around es r) →
    Expr.ScopedAll L around.enclosingClass r.scopes es
  | [], _, _ => trivial
  | e :: rest, r, fills => by
    obtain ⟨first, second⟩ := fills.split (e.resolve_extends around r)
      (Expr.resolveAll_extends around rest _)
    have found := Expr.resolveAll_scoped around rest _ second
    rw [e.resolve_scopes] at found
    exact ⟨e.resolve_scoped around r first, found⟩

end

mutual

theorem Stmt.resolve_scoped (around : Surroundings) : (s : Stmt) → s.Formed ok → (r : Resolver) →
    r.Fills L s.ids (s.resolve around r) → s.Scoped L around r.scopes
  | .expression e, _, r, fills => e.resolve_scoped around r fills
  | .print e, _, r, fills => e.resolve_scoped around r fills
  | .declare name none, _, r, fills => Resolver.free_of_declare_define fills.clean
  | .declare name (some e), _, r, fills => by
    have inner := fills.upTo
      ((r.declare_extends name).trans (e.resolve_extends around _)) (Resolver.define_extends _ name)
    obtain ⟨clean, inner⟩ := inner.before (r.declare_extends name) (e.resolve_extends around _)
    have found := e.resolve_scoped around _ inner
    rw [Resolver.declare_scopes] at found
    exact ⟨Resolver.free_of_declare clean, found⟩
  | .block body, formed, r, fills => by
    have inner := fills.upTo
      ((r.push_extends []).trans (Stmt.resolveAll_extends around body _)) (Resolver.pop_extends _)
    exact Stmt.resolveAll_scoped around body formed (r.push [])
      (inner.before (r.push_extends []) (Stmt.resolveAll_extends around body _)).2
  | .branch condition thenBranch none, ⟨_, formed, _⟩, r, fills => by
    obtain ⟨first, second⟩ := fills.split (condition.resolve_extends around r)
      (thenBranch.resolve_extends around _)
    have found := thenBranch.resolve_scoped around formed _ second
    rw [condition.resolve_scopes] at found
    exact ⟨condition.resolve_scoped around r first, found⟩
  | .branch condition thenBranch (some elseBranch), ⟨_, ⟨formed, still⟩, formed', _⟩, r, fills => by
    obtain ⟨first, others⟩ := fills.split (condition.resolve_extends around r)
      ((thenBranch.resolve_extends around _).trans (elseBranch.resolve_extends around _))
    obtain ⟨second, third⟩ := others.split (thenBranch.resolve_extends around _)
      (elseBranch.resolve_extends around _)
    have found := thenBranch.resolve_scoped around formed _ second
    have found' := elseBranch.resolve_scoped around formed' _ third
    rw [thenBranch.resolve_scopes around formed, thenBranch.after_eq still] at found'
    rw [condition.resolve_scopes] at found found'
    exact ⟨condition.resolve_scoped around r first, found, found'⟩
  | .loop condition body, ⟨_, formed, _⟩, r, fills => by
    obtain ⟨first, second⟩ := fills.split (condition.resolve_extends around r)
      (body.resolve_extends around _)
    have found := body.resolve_scoped around formed _ second
    rw [condition.resolve_scopes] at found
    exact ⟨condition.resolve_scoped around r first, found⟩
  | .function decl, formed, r, fills => by
    obtain ⟨clean, inner⟩ := fills.before (r.declare_define_extends decl.name)
      (decl.resolve_extends { around with function := .function } _)
    have found := decl.resolve_scoped { around with function := .function } formed _ inner
    rw [Resolver.declare_define_scopes] at found
    exact ⟨Resolver.free_of_declare_define clean, found⟩
  | .ret _ none, _, r, fills => (Resolver.allowed_of_checkReturn fills.clean).1
  | .ret _ (some e), _, r, fills => by
    obtain ⟨clean, inner⟩ := fills.before (r.checkReturn_extends around) (e.resolve_extends around _)
    have found := e.resolve_scoped around _ inner
    rw [Resolver.checkReturn_scopes] at found
    obtain ⟨inside, notInitializer⟩ := Resolver.allowed_of_checkReturn clean
    exact ⟨inside, notInitializer rfl, found⟩
  | .classDef name none methods, ⟨_, formed⟩, r, fills => by
    have start := (r.declare_define_extends name).trans (Resolver.push_extends _ thisScope)
    have body := FunctionDecl.resolveMethods_extends { around with enclosingClass := .plain } methods
    have inner := fills.upTo (start.trans (body _)) (Resolver.pop_extends _)
    obtain ⟨clean, inner⟩ := inner.before start (body _)
    have found := FunctionDecl.resolveMethods_scoped { around with enclosingClass := .plain } methods
      formed _ inner
    simp only [Resolver.push, Resolver.declare_define_scopes] at found
    exact ⟨Resolver.free_of_declare_define clean, found⟩
  | .classDef name (some superclass) methods, ⟨_, _, formed⟩, r, fills => by
    have start := (r.declare_define_extends name).trans (Resolver.parent_extends _ name superclass)
    have inside := (Resolver.push_extends ((if superclass.name.text = name.text then
        ((r.declare name).define name).report .inheritsFromItself superclass.name
      else (r.declare name).define name).use superclass) superScope).trans
        (Resolver.push_extends _ thisScope)
    have body := FunctionDecl.resolveMethods_extends { around with enclosingClass := .subclass } methods
    have stop := fun t : Resolver => t.pop_extends.trans t.pop.pop_extends
    have inner := fills.upTo
      (start.trans ((Resolver.use_extends _ superclass).trans (inside.trans (body _)))) (stop _)
    obtain ⟨clean, inner⟩ := inner.before start
      ((Resolver.use_extends _ superclass).trans (inside.trans (body _)))
    obtain ⟨first, second⟩ := inner.split (Resolver.use_extends _ superclass) (inside.trans (body _))
    have recorded := first.records (Resolver.use_records _ (first.unused _ (List.mem_singleton.2 rfl)))
    have ready := Resolver.ready_of_use first.clean
    have found := FunctionDecl.resolveMethods_scoped { around with enclosingClass := .subclass } methods
      formed _ (second.before inside (body _)).2
    simp only [Resolver.push, Resolver.use_scopes] at found
    by_cases itself : superclass.name.text = name.text
    · rw [if_pos itself] at clean
      exact absurd clean (Resolver.report_not_clean _)
    · rw [if_neg itself] at clean recorded ready found
      rw [Resolver.declare_define_scopes] at recorded ready found
      exact ⟨Resolver.free_of_declare_define clean, itself, ⟨recorded, ready⟩, found⟩

theorem Stmt.resolveAll_scoped (around : Surroundings) : (ss : List Stmt) → Stmt.FormedAll ok ss →
    (r : Resolver) → r.Fills L (Stmt.idsAll ss) (Stmt.resolveAll around ss r) →
    Stmt.ScopedAll L around r.scopes ss
  | [], _, _, _ => trivial
  | s :: rest, ⟨formed, others⟩, r, fills => by
    obtain ⟨first, second⟩ := fills.split (s.resolve_extends around r)
      (Stmt.resolveAll_extends around rest _)
    have found := Stmt.resolveAll_scoped around rest others _ second
    rw [s.resolve_scopes around formed] at found
    exact ⟨s.resolve_scoped around formed r first, found⟩

theorem FunctionDecl.resolve_scoped (around : Surroundings) : (decl : FunctionDecl) →
    decl.Formed ok → (r : Resolver) → r.Fills L decl.ids (decl.resolve around r) →
    decl.Scoped L around r.scopes
  | ⟨_, params, body⟩, ⟨_, _, formed⟩, r, fills => by
    have start := (r.push_extends []).trans (Resolver.declareParams_extends _ params)
    have inner := fills.upTo (start.trans (Stmt.resolveAll_extends around body _))
      (Resolver.pop_extends _)
    obtain ⟨clean, inner⟩ := inner.before start (Stmt.resolveAll_extends around body _)
    have found := Stmt.resolveAll_scoped around body formed _ inner
    rw [Resolver.declareParams_scopes rfl] at found
    exact ⟨(Resolver.distinct_of_declareParams rfl clean).1, found⟩

theorem FunctionDecl.resolveMethods_scoped (around : Surroundings) : (decls : List FunctionDecl) →
    FunctionDecl.FormedAll ok decls → (r : Resolver) →
    r.Fills L (FunctionDecl.idsAll decls) (FunctionDecl.resolveMethods around decls r) →
    FunctionDecl.ScopedAll L around r.scopes decls
  | [], _, _, _ => trivial
  | decl :: rest, ⟨formed, others⟩, r, fills => by
    obtain ⟨first, second⟩ := fills.split
      (decl.resolve_extends { around with function := methodContext decl.name } r)
      (FunctionDecl.resolveMethods_extends around rest _)
    have found := FunctionDecl.resolveMethods_scoped around rest others _ second
    rw [decl.resolve_scopes _ formed] at found
    exact ⟨decl.resolve_scoped _ formed r first, found⟩

end

/-- The tree of a program of the grammar is well scoped in the table that its resolution leaves, if
its nodes are new to the table before. -/
theorem resolve_scoped {known : Locals} (derived : Grammar.Derives rule (.declarations ss) ts i j)
    (old : ∀ id d, known[id]? = some d → id ≤ i) (clean : (resolve known ss).errors = []) :
    Stmt.ScopedAll (resolve known ss).locals ⟨.topLevel, .outside⟩ [] ss := by
  have fresh := derived.fresh
  have formed : Stmt.FormedAll (fun _ => True) ss := derived.formed fun _ _ _ => trivial
  refine Stmt.resolveAll_scoped _ ss formed ⟨[], [], known⟩ ⟨clean, fresh.distinct, ?_, fun _ _ => rfl⟩
  intro id member
  cases distance : known[id]? with
  | none => rfl
  | some d => exact absurd (old id d distance) (Nat.not_le.2 (fresh.above id member))

/-- Resolution adds no distances beyond the identities of the program. -/
theorem resolve_old {known : Locals} (derived : Grammar.Derives rule (.declarations ss) ts i j)
    (old : ∀ id d, known[id]? = some d → id ≤ i) :
    ∀ id d, (resolve known ss).locals[id]? = some d → id ≤ j := by
  intro id d distance
  by_cases member : id ∈ Stmt.idsAll ss
  · exact derived.fresh.within id member
  · rw [resolve, (Stmt.resolveAll_extends _ ss _).others id member] at distance
    exact Nat.le_trans (old id d distance) derived.fresh.ordered

/-- Resolution leaves earlier distances as they are. -/
theorem resolve_keeps {known : Locals} (derived : Grammar.Derives rule (.declarations ss) ts i j)
    {node : NodeId} (earlier : node ≤ i) : (resolve known ss).locals[node]? = known[node]? := by
  refine (Stmt.resolveAll_extends _ ss _).others node fun member => ?_
  exact absurd (derived.fresh.above node member) (Nat.not_lt.2 earlier)

end Lox
