import Lox.Proofs.Resolution.Scoping

/-! Resolution of well scoped programs. It reports nothing, and the table it leaves is determined by
the identities of the nodes: each gets its distance, in the order of the walk. -/
namespace Lox

namespace Locals

/-- Takes the distance of a node over from `L`. -/
def mark (L known : Locals) (node : NodeId) : Locals :=
  match L[node]? with
  | none => known
  | some d => known.insert node d

/-- Takes the distances of nodes over from `L`, one after the other. -/
def fill (L known : Locals) (ids : List NodeId) : Locals := ids.foldl L.mark known

private theorem fill_append (L known : Locals) (xs ys : List NodeId) :
    L.fill known (xs ++ ys) = L.fill (L.fill known xs) ys := List.foldl_append

end Locals

variable {L known : Locals} {Γ : Scopes} {errors : List StaticError}

namespace Resolver

private theorem record_eq (recorded : L.Records Γ node name) :
    record ⟨Γ, errors, known⟩ node name = ⟨Γ, errors, L.fill known [node]⟩ := by
  unfold record
  rw [Locals.Records] at recorded
  cases found : distance? Γ name with
  | none => simp only [Locals.fill, List.foldl_cons, List.foldl_nil, Locals.mark, recorded.trans found]
  | some d => simp only [Locals.fill, List.foldl_cons, List.foldl_nil, Locals.mark, recorded.trans found]

private theorem use_eq (recorded : L.Records Γ ref.id ref.name.text) (ready : Γ.Ready ref.name.text) :
    use ⟨Γ, errors, known⟩ ref = ⟨Γ, errors, L.fill known [ref.id]⟩ := by
  have outside : ¬ (Γ.head?.any fun top => top.find? ref.name.text = some false) = true := by
    intro reading
    cases first : Γ.head? with
    | none => simp [first] at reading
    | some top => exact ready top first (by simpa [first] using reading)
  simp only [use, if_neg outside]
  exact record_eq recorded

private theorem useThis_eq (inside : around.enclosingClass ≠ .outside) (recorded : L.Records Γ node Names.this) :
    useThis ⟨Γ, errors, known⟩ around node line = ⟨Γ, errors, L.fill known [node]⟩ := by
  unfold useThis
  split
  · exact absurd (by assumption) inside
  · exact record_eq recorded

private theorem useSuper_eq (inside : around.enclosingClass = .subclass) (recorded : L.Records Γ node Names.super) :
    useSuper ⟨Γ, errors, known⟩ around node line = ⟨Γ, errors, L.fill known [node]⟩ := by
  simp only [useSuper, inside]
  exact record_eq recorded

theorem declare_eq (free : Γ.Free name.text) :
    declare ⟨Γ, errors, known⟩ name = ⟨Γ.enter name.text false, errors, known⟩ := by
  cases Γ with
  | nil => rfl
  | cons top outer =>
    have absent : top.find? name.text = none := free top rfl
    simp only [declare, Table.contains, absent, Option.isSome_none, Bool.false_eq_true, if_false, Scopes.enter]

private theorem define_eq (name : Ident) :
    define ⟨Γ, errors, known⟩ name = ⟨Γ.enter name.text true, errors, known⟩ := by
  cases Γ <;> rfl

private theorem declare_define_eq (free : Γ.Free name.text) :
    (declare ⟨Γ, errors, known⟩ name).define name = ⟨Γ.enter name.text true, errors, known⟩ := by
  rw [declare_eq free, define_eq, Scopes.enter_enter]

theorem checkReturn_eq {r : Resolver} (inside : around.function ≠ .topLevel)
    (allowed : hasValue = true → around.function ≠ .initializer) :
    r.checkReturn around line hasValue = r := by
  simp only [checkReturn]
  split
  · exact absurd (by assumption) inside
  · rename_i initializer
    cases hasValue with
    | false => rfl
    | true => exact absurd initializer (allowed rfl)
  · rfl

/-- Parameters of different names, none of which the scope has yet. -/
theorem declareParams_eq {top : Table Bool} {params : List Ident} (distinct : (params.map (·.text)).Nodup)
    (free : ∀ param ∈ params, top.find? param.text = none) :
    declareParams ⟨top :: Γ, errors, known⟩ params =
      ⟨params.foldl (fun table param => table.insert param.text true) top :: Γ, errors, known⟩ := by
  induction params generalizing top with
  | nil => rfl
  | cons param rest ih =>
    rw [List.map_cons, List.nodup_cons] at distinct
    have first : Scopes.Free (top :: Γ) param.text := by
      rintro _ ⟨⟩
      exact free param List.mem_cons_self
    simp only [declareParams, List.foldl_cons, declare_define_eq first]
    refine ih distinct.2 fun other later => ?_
    have apart : ¬ param.text = other.text := fun same => distinct.1 (same ▸ List.mem_map_of_mem later)
    rw [Table.find?_insert, if_neg apart]
    exact free other (List.mem_cons_of_mem _ later)

end Resolver

mutual

theorem Expr.resolve_eq (around : Surroundings) : (e : Expr) → (known : Locals) →
    e.Scoped L around.enclosingClass Γ →
    e.resolve around ⟨Γ, errors, known⟩ = ⟨Γ, errors, L.fill known e.ids⟩
  | .literal _, _, _ => rfl
  | .group inner, known, found | .unary _ _ inner, known, found | .get inner _, known, found =>
    inner.resolve_eq around known found
  | .binary _ _ left right, known, ⟨first, second⟩ | .logical _ left right, known, ⟨first, second⟩ => by
    rw [Expr.resolve, left.resolve_eq around known first, right.resolve_eq around _ second, Expr.ids,
      Locals.fill_append]
  | .use ref, _, ⟨recorded, ready⟩ => Resolver.use_eq recorded ready
  | .assign ref value, known, ⟨found, recorded⟩ => by
    rw [Expr.resolve, value.resolve_eq around known found, Expr.ids, Locals.fill_append]
    exact Resolver.record_eq recorded
  | .call callee arguments _, known, ⟨first, second⟩ => by
    rw [Expr.resolve, callee.resolve_eq around known first, Expr.resolveAll_eq around arguments _ second,
      Expr.ids, Locals.fill_append]
  | .set object _ value, known, ⟨first, second⟩ => by
    rw [Expr.resolve, value.resolve_eq around known second, object.resolve_eq around _ first, Expr.ids,
      Locals.fill_append]
  | .self _ _, _, ⟨inside, recorded⟩ => Resolver.useThis_eq inside recorded
  | .superMethod _ _ _, _, ⟨inside, recorded⟩ => Resolver.useSuper_eq inside recorded

theorem Expr.resolveAll_eq (around : Surroundings) : (es : List Expr) → (known : Locals) →
    Expr.ScopedAll L around.enclosingClass Γ es →
    Expr.resolveAll around es ⟨Γ, errors, known⟩ = ⟨Γ, errors, L.fill known (Expr.idsAll es)⟩
  | [], _, _ => rfl
  | e :: rest, known, ⟨first, others⟩ => by
    rw [Expr.resolveAll, e.resolve_eq around known first, Expr.resolveAll_eq around rest _ others,
      Expr.idsAll, Locals.fill_append]

end

mutual

theorem Stmt.resolve_eq (around : Surroundings) : (s : Stmt) → s.Formed ok → (Γ : Scopes) → (known : Locals) →
    s.Scoped L around Γ →
    s.resolve around ⟨Γ, errors, known⟩ = ⟨s.after Γ, errors, L.fill known s.ids⟩
  | .expression e, _, _, known, found | .print e, _, _, known, found => e.resolve_eq around known found
  | .declare name none, _, _, _, free => Resolver.declare_define_eq free
  | .declare name (some e), _, _, known, ⟨free, found⟩ => by
    rw [Stmt.resolve, Resolver.declare_eq free, e.resolve_eq around known found, Resolver.define_eq,
      Scopes.enter_enter]
    rfl
  | .block body, formed, Γ, known, found => by
    rw [Stmt.resolve, Resolver.push, Stmt.resolveAll_eq around body formed ([] :: Γ) known found,
      Resolver.pop, Stmt.tail_afterAll]
    rfl
  | .branch condition thenBranch none, ⟨_, formed, still⟩, Γ, known, ⟨first, second⟩ => by
    rw [Stmt.resolve, condition.resolve_eq around known first,
      thenBranch.resolve_eq around formed Γ _ second, thenBranch.after_eq still, Stmt.ids, Locals.fill_append]
    rfl
  | .branch condition thenBranch (some elseBranch), ⟨_, ⟨formed, still⟩, formed', still'⟩, Γ, known,
      ⟨first, second, third⟩ => by
    rw [Stmt.resolve, condition.resolve_eq around known first,
      thenBranch.resolve_eq around formed Γ _ second, thenBranch.after_eq still,
      elseBranch.resolve_eq around formed' Γ _ third, elseBranch.after_eq still', Stmt.ids,
      Locals.fill_append, Locals.fill_append]
    rfl
  | .loop condition body, ⟨_, formed, still⟩, Γ, known, ⟨first, second⟩ => by
    rw [Stmt.resolve, condition.resolve_eq around known first, body.resolve_eq around formed Γ _ second,
      body.after_eq still, Stmt.ids, Locals.fill_append]
    rfl
  | .function decl, formed, Γ, known, ⟨free, found⟩ => by
    rw [Stmt.resolve, Resolver.declare_define_eq free, decl.resolve_eq _ formed _ known found]
    rfl
  | .ret _ none, _, _, _, inside => Resolver.checkReturn_eq inside nofun
  | .ret _ (some e), _, _, known, ⟨inside, notInitializer, found⟩ => by
    rw [Stmt.resolve, Resolver.checkReturn_eq inside fun _ => notInitializer, e.resolve_eq around known found]
    rfl
  | .classDef name none methods, ⟨_, formed⟩, Γ, known, ⟨free, found⟩ => by
    simp only [Stmt.resolve, Resolver.declare_define_eq free, Resolver.push]
    exact congrArg Resolver.pop (FunctionDecl.resolveMethods_eq _ methods formed _ known found)
  | .classDef name (some superclass) methods, ⟨_, _, formed⟩, Γ, known,
      ⟨free, apart, ⟨recorded, ready⟩, found⟩ => by
    simp only [Stmt.resolve, Resolver.declare_define_eq free, if_neg apart, Resolver.use_eq recorded ready,
      Resolver.push]
    exact congrArg (fun r => r.pop.pop) (FunctionDecl.resolveMethods_eq _ methods formed _ _ found)

theorem Stmt.resolveAll_eq (around : Surroundings) : (ss : List Stmt) → Stmt.FormedAll ok ss →
    (Γ : Scopes) → (known : Locals) → Stmt.ScopedAll L around Γ ss →
    Stmt.resolveAll around ss ⟨Γ, errors, known⟩ =
      ⟨Stmt.afterAll Γ ss, errors, L.fill known (Stmt.idsAll ss)⟩
  | [], _, _, _, _ => rfl
  | s :: rest, ⟨formed, others⟩, Γ, known, ⟨first, second⟩ => by
    rw [Stmt.resolveAll, s.resolve_eq around formed Γ known first,
      Stmt.resolveAll_eq around rest others _ _ second, Stmt.idsAll, Locals.fill_append]
    rfl

theorem FunctionDecl.resolve_eq (around : Surroundings) : (decl : FunctionDecl) → decl.Formed ok →
    (Γ : Scopes) → (known : Locals) → decl.Scoped L around Γ →
    decl.resolve around ⟨Γ, errors, known⟩ = ⟨Γ, errors, L.fill known decl.ids⟩
  | ⟨_, params, body⟩, ⟨_, _, formed⟩, Γ, known, ⟨distinct, found⟩ => by
    rw [FunctionDecl.resolve, Resolver.push, Resolver.declareParams_eq distinct fun _ _ => rfl]
    refine (congrArg Resolver.pop (Stmt.resolveAll_eq around body formed _ known found)).trans ?_
    rw [Resolver.pop, Stmt.tail_afterAll]
    rfl

theorem FunctionDecl.resolveMethods_eq (around : Surroundings) : (decls : List FunctionDecl) →
    FunctionDecl.FormedAll ok decls → (Γ : Scopes) → (known : Locals) →
    FunctionDecl.ScopedAll L around Γ decls →
    FunctionDecl.resolveMethods around decls ⟨Γ, errors, known⟩ =
      ⟨Γ, errors, L.fill known (FunctionDecl.idsAll decls)⟩
  | [], _, _, _, _ => rfl
  | decl :: rest, ⟨formed, others⟩, Γ, known, ⟨first, second⟩ => by
    rw [FunctionDecl.resolveMethods, decl.resolve_eq _ formed Γ known first,
      FunctionDecl.resolveMethods_eq around rest others Γ _ second, FunctionDecl.idsAll, Locals.fill_append]

end

/-- What the resolution of a well scoped program leaves. -/
theorem resolve_eq (formed : Stmt.FormedAll ok ss) (found : Stmt.ScopedAll L ⟨.topLevel, .outside⟩ [] ss) :
    resolve known ss = ⟨[], [], L.fill known (Stmt.idsAll ss)⟩ := by
  rw [resolve, Stmt.resolveAll_eq _ ss formed [] known found, Stmt.afterAll_nil]

end Lox
