import Lox.Proofs.Resolution.Exactness
import Lox.Proofs.Resolution.Placement

/-! Resolution reports nothing exactly if a program is well scoped. Each step of the walk reports exactly the
breach of one rule; what the walk knows of the constructs around a piece, it knows from its scopes and its
surroundings. The surroundings may as well be kept in registers that are set and put back by hand. -/
namespace Lox

namespace Scopes

/-- The scopes once some names are in the innermost one. -/
def enterAll (names : List Text) (Γ : Scopes) : Scopes := names.foldl (fun Γ name => Γ.enter name true) Γ

/-- The innermost scope can declare these names: each once, and none that it has already. -/
def Admits (Γ : Scopes) (names : List Text) : Prop :=
  ∀ top ∈ Γ.head?, names.Nodup ∧ ∀ name ∈ names, top.find? name = none

/-- Nothing is being initialized. -/
def Settled (Γ : Scopes) : Prop := ∀ name, Γ.Ready name

private theorem enterAll_append (xs ys : List Text) (Γ : Scopes) :
    Γ.enterAll (xs ++ ys) = (Γ.enterAll xs).enterAll ys :=
  List.foldl_append

/-- At top level there are no local scopes to enter names into. -/
theorem enterAll_nil (names : List Text) : enterAll names [] = [] := by
  induction names with
  | nil => rfl
  | cons name rest ih => exact ih

private theorem enterAll_cons (names : List Text) (top : Table Bool) (outer : Scopes) :
    enterAll names (top :: outer) = names.foldl (fun table name => table.insert name true) top :: outer := by
  induction names generalizing top with
  | nil => rfl
  | cons name rest ih => exact ih _

private theorem tail_enterAll (names : List Text) (Γ : Scopes) : (Γ.enterAll names).tail = Γ.tail := by
  cases Γ with
  | nil => rw [enterAll_nil]
  | cons top outer => rw [enterAll_cons, List.tail_cons, List.tail_cons]

private theorem find?_foldl_insert (names : List Text) (table : Table Bool) (name : Text) :
    (names.foldl (fun table name => table.insert name true) table).find? name =
      if name ∈ names then some true else table.find? name := by
  induction names generalizing table with
  | nil => simp
  | cons first rest ih =>
    rw [List.foldl_cons, ih, Table.find?_insert]
    by_cases later : name ∈ rest
    · simp [later]
    · by_cases here : first = name
      · simp [here]
      · have apart : ¬ name = first := fun same => here same.symm
        simp [later, here, apart]

private theorem admits_nil (Γ : Scopes) : Γ.Admits [] := fun _ _ => ⟨.nil, nofun⟩

private theorem admits_singleton (Γ : Scopes) (name : Text) : Γ.Admits [name] ↔ Γ.Free name := by
  constructor
  · intro admits top first
    exact (admits top first).2 name (List.mem_singleton_self name)
  · intro free top first
    refine ⟨List.nodup_cons.2 ⟨List.not_mem_nil, .nil⟩, fun other member => ?_⟩
    rw [List.mem_singleton.1 member]
    exact free top first

/-- A new scope has no names yet. -/
theorem admits_fresh (names : List Text) (outer : Scopes) : Admits ([] :: outer) names ↔ names.Nodup := by
  simp [Admits]

/-- Names are declared one after the other. -/
theorem admits_append (Γ : Scopes) (xs ys : List Text) :
    Γ.Admits (xs ++ ys) ↔ Γ.Admits xs ∧ (Γ.enterAll xs).Admits ys := by
  cases Γ with
  | nil =>
    rw [enterAll_nil]
    exact ⟨fun _ => ⟨nofun, nofun⟩, fun _ => nofun⟩
  | cons top outer =>
    rw [enterAll_cons]
    simp only [Admits, List.head?_cons, Option.mem_def, Option.some.injEq, forall_eq', find?_foldl_insert,
      List.nodup_append, List.forall_mem_append]
    constructor
    · rintro ⟨⟨distinct, distinct', apart⟩, free, free'⟩
      refine ⟨⟨distinct, free⟩, distinct', fun name member => ?_⟩
      rw [if_neg fun early => apart name early name member rfl]
      exact free' name member
    · rintro ⟨⟨distinct, free⟩, distinct', free'⟩
      refine ⟨⟨distinct, distinct', ?_⟩, free, fun name member => ?_⟩
      · rintro name early _ member rfl
        have found := free' name member
        rw [if_pos early] at found
        cases found
      · have found := free' name member
        by_cases early : name ∈ xs
        · rw [if_pos early] at found
          cases found
        · rwa [if_neg early] at found

private theorem Settled.enterAll (settled : Settled Γ) (names : List Text) : (Γ.enterAll names).Settled := by
  cases Γ with
  | nil =>
    rw [enterAll_nil]
    exact settled
  | cons top outer =>
    rw [enterAll_cons]
    rintro name _ ⟨⟩
    rw [find?_foldl_insert]
    split
    · simp
    · exact settled name top rfl

end Scopes

/-! What the single steps of the walk report. -/

namespace Resolver

variable {r : Resolver}

private theorem declare_clean_iff (name : Ident) :
    (r.declare name).errors = [] ↔ r.errors = [] ∧ Scopes.Free r.scopes name.text := by
  constructor
  · intro clean
    exact ⟨(declare_extends r name).clean clean, free_of_declare clean⟩
  · rintro ⟨clean, free⟩
    obtain ⟨scopes, errors, locals⟩ := r
    rw [declare_eq free]
    exact clean

private theorem define_errors (name : Ident) : (r.define name).errors = r.errors := by
  unfold define
  split <;> rfl

private theorem declare_define_clean_iff (name : Ident) :
    ((r.declare name).define name).errors = [] ↔ r.errors = [] ∧ Scopes.Admits r.scopes [name.text] := by
  rw [define_errors, declare_clean_iff, Scopes.admits_singleton]

private theorem record_errors (node : NodeId) (name : Text) : (r.record node name).errors = r.errors := by
  unfold record
  split <;> rfl

private theorem use_clean_iff (ref : Reference) :
    (r.use ref).errors = [] ↔ r.errors = [] ∧ Scopes.Ready r.scopes ref.name.text := by
  constructor
  · intro clean
    exact ⟨(use_extends r ref).clean clean, ready_of_use clean⟩
  · rintro ⟨clean, ready⟩
    have outside : ¬ (r.scopes.head?.any fun top => top.find? ref.name.text = some false) = true := by
      intro reading
      cases first : r.scopes.head? with
      | none => simp [first] at reading
      | some top => exact ready top first (by simpa [first] using reading)
    simp only [use, if_neg outside, record_errors]
    exact clean

private theorem useThis_clean_iff (around : Surroundings) (node : NodeId) (line : Nat) :
    (r.useThis around node line).errors = [] ↔ r.errors = [] ∧ around.enclosingClass ≠ .outside := by
  unfold useThis
  split
  · rename_i outside
    simp [report, outside]
  · rename_i inside
    rw [record_errors]
    exact ⟨fun clean => ⟨clean, inside⟩, And.left⟩

private theorem useSuper_clean_iff (around : Surroundings) (node : NodeId) (line : Nat) :
    (r.useSuper around node line).errors = [] ↔ r.errors = [] ∧ around.enclosingClass = .subclass := by
  simp only [useSuper, record_errors]
  cases around.enclosingClass with
  | outside | plain => simp [report]
  | subclass => simp

private theorem checkReturn_clean_iff (around : Surroundings) (line : Nat) (hasValue : Bool) :
    (r.checkReturn around line hasValue).errors = [] ↔
      r.errors = [] ∧ around.function ≠ .topLevel ∧ (hasValue = true → around.function ≠ .initializer) := by
  constructor
  · intro clean
    exact ⟨(checkReturn_extends r around).clean clean, allowed_of_checkReturn clean⟩
  · rintro ⟨clean, inside, allowed⟩
    rw [checkReturn_eq inside allowed]
    exact clean

private theorem declareParams_scopes_eq (r : Resolver) (params : List Ident) :
    (r.declareParams params).scopes = Scopes.enterAll (params.map (·.text)) r.scopes := by
  induction params generalizing r with
  | nil => rfl
  | cons param rest ih =>
    refine (ih _).trans ?_
    rw [declare_define_scopes]
    rfl

private theorem declareParams_clean_iff (params : List Ident) :
    (r.declareParams params).errors = [] ↔
      r.errors = [] ∧ Scopes.Admits r.scopes (params.map (·.text)) := by
  induction params generalizing r with
  | nil => exact ⟨fun clean => ⟨clean, Scopes.admits_nil _⟩, And.left⟩
  | cons param rest ih =>
    have first : param.text :: rest.map (·.text) = [param.text] ++ rest.map (·.text) := rfl
    rw [List.map_cons, first, Scopes.admits_append, ← and_assoc, ← declare_define_clean_iff]
    refine Iff.trans ih ?_
    rw [declare_define_scopes]
    rfl

private theorem inherit_clean_iff (name : Ident) (superclass : Reference) :
    (if superclass.name.text = name.text then r.report .inheritsFromItself superclass.name else r).errors = [] ↔
      r.errors = [] ∧ superclass.name.text ≠ name.text := by
  split
  · rename_i same
    simp [report, same]
  · rename_i apart
    exact ⟨fun clean => ⟨clean, apart⟩, And.left⟩

private theorem inherit_scopes (name : Ident) (superclass : Reference) :
    (if superclass.name.text = name.text then r.report .inheritsFromItself superclass.name else r).scopes =
      r.scopes := by
  split <;> rfl

end Resolver

/-! The scopes after a statement, whatever stands in the branches of it. -/

mutual

theorem Stmt.resolve_enters (around : Surroundings) : (s : Stmt) → (r : Resolver) →
    (s.resolve around r).scopes = Scopes.enterAll s.declares r.scopes
  | .expression e, r => e.resolve_scopes around r
  | .print e, r => e.resolve_scopes around r
  | .declare name none, r => r.declare_define_scopes name
  | .declare name (some e), r => by
    rw [Stmt.resolve, Resolver.define_scopes, e.resolve_scopes, Resolver.declare_scopes, Scopes.enter_enter]
    rfl
  | .block body, r => by
    rw [Stmt.resolve, Resolver.pop, Stmt.resolveAll_enters around body, Scopes.tail_enterAll]
    rfl
  | .branch condition thenBranch none, r => by
    rw [Stmt.resolve, thenBranch.resolve_enters, condition.resolve_scopes]
    rfl
  | .branch condition thenBranch (some elseBranch), r => by
    rw [Stmt.resolve, elseBranch.resolve_enters, thenBranch.resolve_enters, condition.resolve_scopes,
      ← Scopes.enterAll_append]
    rfl
  | .loop condition body, r => by
    rw [Stmt.resolve, body.resolve_enters, condition.resolve_scopes]
    rfl
  | .function decl, r => by
    rw [Stmt.resolve, decl.resolve_enters, Resolver.declare_define_scopes]
    rfl
  | .ret _ none, r => r.checkReturn_scopes around
  | .ret _ (some e), r => (e.resolve_scopes around _).trans (r.checkReturn_scopes around)
  | .classDef name none methods, r => by
    simp only [Stmt.resolve, Resolver.pop, FunctionDecl.resolveMethods_enters _ methods, Resolver.push,
      List.tail_cons, Resolver.declare_define_scopes]
    rfl
  | .classDef name (some superclass) methods, r => by
    simp only [Stmt.resolve, Resolver.pop, FunctionDecl.resolveMethods_enters _ methods, Resolver.push,
      List.tail_cons, Resolver.use_scopes, Resolver.inherit_scopes, Resolver.declare_define_scopes]
    rfl

theorem Stmt.resolveAll_enters (around : Surroundings) : (ss : List Stmt) → (r : Resolver) →
    (Stmt.resolveAll around ss r).scopes = Scopes.enterAll (Stmt.declaresAll ss) r.scopes
  | [], _ => rfl
  | s :: rest, r => by
    rw [Stmt.resolveAll, Stmt.resolveAll_enters around rest, s.resolve_enters, ← Scopes.enterAll_append]
    rfl

theorem FunctionDecl.resolve_enters (around : Surroundings) : (decl : FunctionDecl) → (r : Resolver) →
    (decl.resolve around r).scopes = r.scopes
  | ⟨_, params, body⟩, r => by
    rw [FunctionDecl.resolve, Resolver.pop, Stmt.resolveAll_enters around body, Scopes.tail_enterAll,
      Resolver.declareParams_scopes_eq, Scopes.tail_enterAll]
    rfl

theorem FunctionDecl.resolveMethods_enters (around : Surroundings) : (decls : List FunctionDecl) →
    (r : Resolver) → (FunctionDecl.resolveMethods around decls r).scopes = r.scopes
  | [], _ => rfl
  | decl :: rest, r => by
    rw [FunctionDecl.resolveMethods, FunctionDecl.resolveMethods_enters around rest, decl.resolve_enters]

end

/-! The walk and the constructs around. -/

variable {Γ : Scopes} {around : List Enclosure}

namespace Site

/-- The names that are not to be read are those of local variables in whose initializers a piece stands. -/
def Readies (Γ : Scopes) (around : List Enclosure) : Prop :=
  ∀ name, Γ.Ready name ↔ ¬ (.initializer name ∈ around ∧ ∃ outer ∈ around, outer.isLocal = true)

/-- The scopes of a statement that stands in these constructs. -/
structure Reflects (Γ : Scopes) (around : List Enclosure) : Prop where
  settled : Γ.Settled
  calm : ∀ name, .initializer name ∉ around
  inside : Γ ≠ [] ↔ ∃ outer ∈ around, outer.isLocal = true

private theorem Reflects.top : Reflects [] [] := ⟨nofun, nofun, by simp⟩

private theorem Reflects.readies (reflects : Reflects Γ around) : Readies Γ around :=
  fun name => ⟨fun _ both => reflects.calm name both.1, fun _ => reflects.settled name⟩

private theorem Reflects.enterAll (reflects : Reflects Γ around) (names : List Text) :
    Reflects (Γ.enterAll names) around := by
  refine ⟨reflects.settled.enterAll names, reflects.calm, Iff.trans ?_ reflects.inside⟩
  cases Γ with
  | nil => rw [Scopes.enterAll_nil]
  | cons top outer => simp [Scopes.enterAll_cons]

/-- A new local scope, in which nothing is being initialized. -/
theorem Reflects.fresh (calm : ∀ name, .initializer name ∉ around) (opens : construct.isLocal = true)
    (names : List Text) (outer : Scopes) :
    Reflects (Scopes.enterAll names ([] :: outer)) (construct :: around) := by
  have settled : Scopes.Settled ([] :: outer) := by
    rintro name _ ⟨⟩
    simp
  refine ⟨settled.enterAll names, fun name member => ?_, ?_⟩
  · rcases List.mem_cons.1 member with rfl | old
    · cases opens
    · exact calm name old
  · rw [Scopes.enterAll_cons]
    exact ⟨fun _ => ⟨construct, List.mem_cons_self, opens⟩, fun _ => by simp⟩

/-- The scope of a method, in whatever scopes its class has. -/
theorem Reflects.method (reflects : Reflects Γ around) (superclass : Option Reference)
    (methods : List FunctionDecl) (outer : Scopes) (method : Text) (names : List Text) :
    Reflects (Scopes.enterAll names ([] :: outer))
      (.methodBody method :: .classBody superclass methods :: around) := by
  refine .fresh (fun name member => ?_) rfl names outer
  rcases List.mem_cons.1 member with wrong | old
  · cases wrong
  · exact reflects.calm name old

/-- While a local variable is initialized, its name is not ready; a global variable has no such state. -/
theorem Reflects.initializer (reflects : Reflects Γ around) (name : Text) :
    Readies (Γ.enter name false) (.initializer name :: around) := by
  intro other
  have around' : (∃ outer ∈ Enclosure.initializer name :: around, outer.isLocal = true) ↔ Γ ≠ [] := by
    rw [reflects.inside]
    simp [Enclosure.isLocal]
  have own : Enclosure.initializer other ∈ Enclosure.initializer name :: around ↔ other = name := by
    rw [List.mem_cons, or_iff_left (reflects.calm other), Enclosure.initializer.injEq]
  rw [around', own]
  cases Γ with
  | nil => exact ⟨fun _ both => both.2 rfl, fun _ => nofun⟩
  | cons top outer =>
    simp only [Scopes.enter, Scopes.Ready, List.head?_cons, Option.mem_def, Option.some.injEq, forall_eq',
      Table.find?_insert]
    by_cases same : name = other
    · simp [same]
    · have apart : ¬ other = name := fun equal => same equal.symm
      have ready := reflects.settled other top rfl
      simp [same, apart, ready]

end Site

open Site

/-! One induction over the tree. Each case takes the rule of its own piece from the step of the walk, and the
rules of the parts from the walks through them. -/

mutual

theorem Expr.clean_iff (readies : Readies Γ around) : (e : Expr) → (r : Resolver) → r.scopes = Γ →
    ((e.resolve (surroundings around) r).errors = [] ↔
      r.errors = [] ∧ Everywhere Lawful ⟨.expr e, around⟩)
  | .literal _, r, _ => by
    rw [everywhere_expr]
    simp [Expr.resolve, Lawful, Expr.parts]
  | .group inner, r, here | .unary _ _ inner, r, here | .get inner _, r, here => by
    rw [everywhere_expr, Expr.resolve, inner.clean_iff readies r here]
    simp [Lawful, Expr.parts]
  | .binary _ _ left right, r, here | .logical _ left right, r, here => by
    have after := (left.resolve_scopes (surroundings around) r).trans here
    rw [everywhere_expr, Expr.resolve, right.clean_iff readies _ after, left.clean_iff readies r here]
    simp [Lawful, Expr.parts, and_assoc]
  | .use ref, r, here => by
    rw [Expr.resolve, Resolver.use_clean_iff, here, readies, everywhere_expr]
    simp [Lawful, Expr.parts]
  | .assign ref value, r, here => by
    rw [everywhere_expr, Expr.resolve, Resolver.record_errors, value.clean_iff readies r here]
    simp [Lawful, Expr.parts]
  | .call callee arguments _, r, here => by
    have after := (callee.resolve_scopes (surroundings around) r).trans here
    rw [everywhere_expr, Expr.resolve, Expr.cleanAll_iff readies arguments _ after, callee.clean_iff readies r here]
    simp [Lawful, Expr.parts, and_assoc]
  | .set object _ value, r, here => by
    have after := (value.resolve_scopes (surroundings around) r).trans here
    rw [everywhere_expr, Expr.resolve, object.clean_iff readies _ after, value.clean_iff readies r here,
      and_right_comm]
    simp [Lawful, Expr.parts, and_assoc]
  | .self _ _, r, _ => by
    rw [Expr.resolve, Resolver.useThis_clean_iff, everywhere_expr]
    simp [Lawful, Expr.parts, exists_isClass_iff, surroundings]
  | .superMethod _ _ _, r, _ => by
    rw [Expr.resolve, Resolver.useSuper_clean_iff, everywhere_expr]
    simp [Lawful, Expr.parts, find?_isClass_iff, surroundings]

theorem Expr.cleanAll_iff (readies : Readies Γ around) : (es : List Expr) → (r : Resolver) → r.scopes = Γ →
    ((Expr.resolveAll (surroundings around) es r).errors = [] ↔
      r.errors = [] ∧ ∀ e ∈ es, Everywhere Lawful ⟨.expr e, around⟩)
  | [], r, _ => by simp [Expr.resolveAll]
  | e :: rest, r, here => by
    have after := (e.resolve_scopes (surroundings around) r).trans here
    rw [Expr.resolveAll, Expr.cleanAll_iff readies rest _ after, e.clean_iff readies r here,
      List.forall_mem_cons, and_assoc]

end

mutual

theorem Stmt.clean_iff : (s : Stmt) → (around : List Enclosure) → (r : Resolver) → Reflects r.scopes around →
    ((s.resolve (surroundings around) r).errors = [] ↔
      r.errors = [] ∧ Scopes.Admits r.scopes s.declares ∧ Everywhere Lawful ⟨.stmt s, around⟩)
  | .expression e, around, r, reflects | .print e, around, r, reflects => by
    rw [everywhere_iff, Stmt.resolve, e.clean_iff reflects.readies r rfl]
    simp [Lawful, Site.parts, Stmt.parts, Stmt.declares, Scopes.admits_nil]
  | .declare name none, around, r, reflects => by
    rw [everywhere_iff, Stmt.resolve, Resolver.declare_define_clean_iff]
    simp [Lawful, Site.parts, Stmt.parts, Stmt.declares]
  | .declare name (some e), around, r, reflects => by
    have within := reflects.initializer name.text
    have entered := r.declare_scopes name
    rw [everywhere_iff, Stmt.resolve, Resolver.define_errors, ← surroundings_initializer around name.text,
      e.clean_iff within _ entered, Resolver.declare_clean_iff, ← Scopes.admits_singleton]
    simp [Lawful, Site.parts, Stmt.parts, Stmt.declares, and_assoc]
  | .block body, around, r, reflects => by
    have inside : Reflects (r.push []).scopes (.block :: around) := .fresh reflects.calm rfl [] r.scopes
    have walked := Stmt.cleanAll_iff body (.block :: around) (r.push []) inside
    rw [surroundings_block, Resolver.push, Scopes.admits_fresh] at walked
    rw [everywhere_iff, Stmt.resolve]
    refine walked.trans ?_
    simp [Lawful, Site.parts, Stmt.parts, Stmt.declares, Scopes.admits_nil]
  | .branch condition thenBranch none, around, r, reflects => by
    have scopes := condition.resolve_scopes (surroundings around) r
    rw [everywhere_iff, Stmt.resolve, thenBranch.clean_iff around _ (scopes ▸ reflects),
      condition.clean_iff reflects.readies r rfl, scopes]
    simp [Lawful, Site.parts, Stmt.parts, Stmt.declares, and_assoc, and_left_comm]
  | .branch condition thenBranch (some elseBranch), around, r, reflects => by
    have scopes := condition.resolve_scopes (surroundings around) r
    have scopes' := (thenBranch.resolve_enters (surroundings around) _).trans (congrArg _ scopes)
    rw [everywhere_iff, Stmt.resolve, elseBranch.clean_iff around _ (scopes' ▸ reflects.enterAll _),
      thenBranch.clean_iff around _ (scopes ▸ reflects), condition.clean_iff reflects.readies r rfl, scopes, scopes']
    simp only [Lawful, Site.parts, Stmt.parts, Stmt.declares, Scopes.admits_append, List.forall_mem_cons,
      true_and]
    grind
  | .loop condition body, around, r, reflects => by
    have scopes := condition.resolve_scopes (surroundings around) r
    rw [everywhere_iff, Stmt.resolve, body.clean_iff around _ (scopes ▸ reflects),
      condition.clean_iff reflects.readies r rfl, scopes]
    simp [Lawful, Site.parts, Stmt.parts, Stmt.declares, and_assoc, and_left_comm]
  | .function decl, around, r, reflects => by
    rw [everywhere_iff, Stmt.resolve, ← surroundings_functionBody,
      decl.clean_iff _ _ fun names => .fresh reflects.calm rfl names _, Resolver.declare_define_clean_iff]
    simp [Lawful, Site.parts, Stmt.parts, Stmt.declares, and_assoc]
  | .ret _ none, around, r, reflects => by
    rw [everywhere_iff, Stmt.resolve, Resolver.checkReturn_clean_iff]
    simp [Lawful, Site.parts, Stmt.parts, Stmt.declares, Scopes.admits_nil, exists_isFunction_iff, surroundings]
  | .ret line (some e), around, r, reflects => by
    have scopes : (r.checkReturn (surroundings around) line true).scopes = r.scopes := r.checkReturn_scopes _
    rw [everywhere_iff, Stmt.resolve, e.clean_iff reflects.readies _ scopes, Resolver.checkReturn_clean_iff]
    simp [Lawful, Site.parts, Stmt.parts, Stmt.declares, Scopes.admits_nil, exists_isFunction_iff, surroundings,
      find?_isFunction_iff, and_assoc]
  | .classDef name none methods, around, r, reflects => by
    have walked := FunctionDecl.cleanAll_iff none methods methods around (surroundings around).function
      (((r.declare name).define name).push [(Names.this, true)]) (reflects.method none methods _)
    rw [everywhere_class, Stmt.resolve]
    refine walked.trans ?_
    rw [Resolver.push, Resolver.declare_define_clean_iff, and_assoc]
    simp [Lawful, Stmt.declares]
  | .classDef name (some superclass) methods, around, r, reflects => by
    let entered := (r.declare name).define name
    let inheriting := if superclass.name.text = name.text then
        entered.report .inheritsFromItself superclass.name
      else entered
    have scopes : inheriting.scopes = Scopes.enterAll [name.text] r.scopes :=
      (Resolver.inherit_scopes name superclass).trans (r.declare_define_scopes name)
    have walked := FunctionDecl.cleanAll_iff (some superclass) methods methods around (surroundings around).function
      (((inheriting.use superclass).push [(Names.super, true)]).push [(Names.this, true)])
      (reflects.method (some superclass) methods _)
    have ready : Scopes.Ready inheriting.scopes superclass.name.text :=
      scopes ▸ (reflects.enterAll [name.text]).settled superclass.name.text
    have lawful : Lawful ⟨.expr (.use superclass), around⟩ :=
      (reflects.readies superclass.name.text).1 (reflects.settled superclass.name.text)
    rw [everywhere_class, Stmt.resolve]
    refine walked.trans ?_
    rw [Resolver.push, Resolver.push, Resolver.use_clean_iff, Resolver.inherit_clean_iff,
      Resolver.declare_define_clean_iff, and_iff_left ready]
    simp only [Stmt.declares, Option.mem_def, Option.some.injEq, forall_eq', lawful, true_and,
      and_assoc]
    simp only [Lawful, Option.mem_def, Option.some.injEq, forall_eq', and_assoc, and_left_comm]

theorem Stmt.cleanAll_iff : (ss : List Stmt) → (around : List Enclosure) → (r : Resolver) →
    Reflects r.scopes around →
    ((Stmt.resolveAll (surroundings around) ss r).errors = [] ↔ r.errors = [] ∧
      Scopes.Admits r.scopes (Stmt.declaresAll ss) ∧ ∀ s ∈ ss, Everywhere Lawful ⟨.stmt s, around⟩)
  | [], around, r, _ => by simp [Stmt.resolveAll, Stmt.declaresAll, Scopes.admits_nil]
  | s :: rest, around, r, reflects => by
    have scopes := s.resolve_enters (surroundings around) r
    have declared : Stmt.declaresAll (s :: rest) = s.declares ++ Stmt.declaresAll rest := List.flatMap_cons
    rw [Stmt.resolveAll, Stmt.cleanAll_iff rest around _ (scopes ▸ reflects.enterAll _), s.clean_iff around r reflects,
      scopes, declared, Scopes.admits_append, List.forall_mem_cons]
    grind

/-- A function's parameters and its body share a new scope. -/
theorem FunctionDecl.clean_iff : (decl : FunctionDecl) → (around : List Enclosure) → (r : Resolver) →
    (∀ names, Reflects (Scopes.enterAll names ([] :: r.scopes)) around) →
    ((decl.resolve (surroundings around) r).errors = [] ↔
      r.errors = [] ∧ decl.declares.Nodup ∧ ∀ s ∈ decl.body, Everywhere Lawful ⟨.stmt s, around⟩)
  | ⟨name, params, body⟩, around, r, inside => by
    have scopes := (r.push []).declareParams_scopes_eq params
    have walked := Stmt.cleanAll_iff body around ((r.push []).declareParams params) (scopes ▸ inside _)
    rw [scopes, Resolver.declareParams_clean_iff, and_assoc, ← and_assoc (a := Scopes.Admits _ _),
      ← Scopes.admits_append, Resolver.push, Scopes.admits_fresh] at walked
    rw [FunctionDecl.resolve]
    exact walked

theorem FunctionDecl.cleanAll_iff (superclass : Option Reference) (methods : List FunctionDecl) :
    (decls : List FunctionDecl) → (outer : List Enclosure) → (f : FunctionContext) → (r : Resolver) →
    (∀ method names, Reflects (Scopes.enterAll names ([] :: r.scopes))
      (.methodBody method :: .classBody superclass methods :: outer)) →
    ((FunctionDecl.resolveMethods ⟨f, if superclass.isSome then .subclass else .plain⟩ decls r).errors = [] ↔
      r.errors = [] ∧ (∀ method ∈ decls, method.declares.Nodup) ∧ ∀ method ∈ decls, ∀ s ∈ method.body,
        Everywhere Lawful ⟨.stmt s, .methodBody method.name.text :: .classBody superclass methods :: outer⟩)
  | [], outer, f, r, _ => by simp [FunctionDecl.resolveMethods]
  | decl :: rest, outer, f, r, inside => by
    have scopes := decl.resolve_enters ⟨methodContext decl.name, if superclass.isSome then .subclass else .plain⟩ r
    rw [FunctionDecl.resolveMethods, FunctionDecl.cleanAll_iff superclass methods rest outer f _ (scopes ▸ inside),
      ← surroundings_methodBody outer, decl.clean_iff _ r (inside _), List.forall_mem_cons, List.forall_mem_cons,
      and_assoc, and_and_and_comm]

end

private theorem resolve_clean_iff (locals : Locals) (program : List Stmt) :
    (resolve locals program).errors = [] ↔ WellScoped program := by
  have walked := Stmt.cleanAll_iff program [] ⟨[], [], locals⟩ .top
  have admitted : Scopes.Admits [] (Stmt.declaresAll program) := nofun
  simp only [admitted, true_and] at walked
  rw [wellScoped_iff]
  exact walked

/-! Surroundings in registers. -/

/-- A walk that keeps the kinds of function and class around it in registers. -/
structure Walker where
  resolver : Resolver
  function : FunctionContext
  enclosingClass : ClassContext

namespace Walker

def start (locals : Locals) : Walker := ⟨⟨[], [], locals⟩, .topLevel, .outside⟩

/-- Does a step that reads the registers. -/
def step (w : Walker) (f : Surroundings → Resolver → Resolver) : Walker :=
  { w with resolver := f ⟨w.function, w.enclosingClass⟩ w.resolver }

end Walker

mutual

def Stmt.walk : Stmt → Walker → Walker
  | .expression e, w => w.step e.resolve
  | .print e, w => w.step e.resolve
  | .declare name none, w => w.step fun _ r => (r.declare name).define name
  | .declare name (some e), w =>
    let w := w.step fun _ r => r.declare name
    let w := w.step e.resolve
    w.step fun _ r => r.define name
  | .block body, w =>
    let w := w.step fun _ r => r.push []
    let w := Stmt.walkAll body w
    w.step fun _ r => r.pop
  | .branch condition thenBranch none, w => thenBranch.walk (w.step condition.resolve)
  | .branch condition thenBranch (some elseBranch), w => elseBranch.walk (thenBranch.walk (w.step condition.resolve))
  | .loop condition body, w => body.walk (w.step condition.resolve)
  | .function decl, w => decl.walk .function (w.step fun _ r => (r.declare decl.name).define decl.name)
  | .ret line none, w => w.step fun around r => r.checkReturn around line false
  | .ret line (some e), w => (w.step fun around r => r.checkReturn around line true).step e.resolve
  | .classDef name none methods, w =>
    let outer := w.enclosingClass
    let w := { w with enclosingClass := .plain }
    let w := w.step fun _ r => ((r.declare name).define name).push [(Names.this, true)]
    let w := FunctionDecl.walkMethods methods w
    let w := w.step fun _ r => r.pop
    { w with enclosingClass := outer }
  | .classDef name (some superclass) methods, w =>
    let outer := w.enclosingClass
    let w := { w with enclosingClass := .plain }
    let w := w.step fun _ r => (r.declare name).define name
    let w := w.step fun _ r =>
      if superclass.name.text = name.text then r.report .inheritsFromItself superclass.name else r
    let w := { w with enclosingClass := .subclass }
    let w := w.step fun _ r => ((r.use superclass).push [(Names.super, true)]).push [(Names.this, true)]
    let w := FunctionDecl.walkMethods methods w
    let w := w.step fun _ r => r.pop.pop
    { w with enclosingClass := outer }

def Stmt.walkAll : List Stmt → Walker → Walker
  | [], w => w
  | s :: rest, w => Stmt.walkAll rest (s.walk w)

def FunctionDecl.walk (kind : FunctionContext) : FunctionDecl → Walker → Walker
  | ⟨_, params, body⟩, w =>
    let outer := w.function
    let w := { w with function := kind }
    let w := w.step fun _ r => (r.push []).declareParams params
    let w := Stmt.walkAll body w
    let w := w.step fun _ r => r.pop
    { w with function := outer }

def FunctionDecl.walkMethods : List FunctionDecl → Walker → Walker
  | [], w => w
  | decl :: rest, w => FunctionDecl.walkMethods rest (decl.walk (methodContext decl.name) w)

end

mutual

/-- A walk that puts its registers back does what resolution does, in which there is nothing to put back. -/
theorem Stmt.walk_eq : (s : Stmt) → (w : Walker) → s.walk w = w.step s.resolve
  | .expression _, _ | .print _, _ | .declare _ none, _ | .declare _ (some _), _ | .ret _ none, _
  | .ret _ (some _), _ => rfl
  | .block body, w => by
    rw [Stmt.walk, Stmt.walkAll_eq body]
    rfl
  | .branch condition thenBranch none, w => by
    rw [Stmt.walk, thenBranch.walk_eq]
    rfl
  | .branch condition thenBranch (some elseBranch), w => by
    rw [Stmt.walk, elseBranch.walk_eq, thenBranch.walk_eq]
    rfl
  | .loop condition body, w => by
    rw [Stmt.walk, body.walk_eq]
    rfl
  | .function decl, w => by
    rw [Stmt.walk, decl.walk_eq]
    rfl
  | .classDef name none methods, w => by
    simp only [Stmt.walk, FunctionDecl.walkMethods_eq methods]
    rfl
  | .classDef name (some superclass) methods, w => by
    simp only [Stmt.walk, FunctionDecl.walkMethods_eq methods]
    rfl

theorem Stmt.walkAll_eq : (ss : List Stmt) → (w : Walker) →
    Stmt.walkAll ss w = w.step fun around => Stmt.resolveAll around ss
  | [], _ => rfl
  | s :: rest, w => by
    rw [Stmt.walkAll, Stmt.walkAll_eq rest, s.walk_eq]
    rfl

theorem FunctionDecl.walk_eq : (decl : FunctionDecl) → (kind : FunctionContext) → (w : Walker) →
    decl.walk kind w = w.step fun around => decl.resolve { around with function := kind }
  | ⟨_, params, body⟩, kind, w => by
    simp only [FunctionDecl.walk, Stmt.walkAll_eq body]
    rfl

theorem FunctionDecl.walkMethods_eq : (decls : List FunctionDecl) → (w : Walker) →
    FunctionDecl.walkMethods decls w = w.step fun around => FunctionDecl.resolveMethods around decls
  | [], _ => rfl
  | decl :: rest, w => by
    rw [FunctionDecl.walkMethods, FunctionDecl.walkMethods_eq rest, decl.walk_eq]
    rfl

end

/-- Resolution rejects exactly the ill scoped programs: it reports nothing if and only if everywhere in the
program a local scope declares each name once, no local variable is read in its own initializer, a return
stands in a function and has no value in an initializer, `this` stands in a class, `super` stands in a class
that has a superclass, and no class is its own superclass. The scopes end as they began; and so do the kinds
of function and class around, if they are kept in registers that are put back by hand. -/
theorem resolution_rejects_the_ill_scoped (locals : Locals) (program : List Stmt) :
    ((resolve locals program).errors = [] ↔ WellScoped program) ∧
      (resolve locals program).scopes = [] ∧
      Stmt.walkAll program (.start locals) = { Walker.start locals with resolver := resolve locals program } := by
  refine ⟨resolve_clean_iff locals program, ?_, Stmt.walkAll_eq program _⟩
  rw [resolve, Stmt.resolveAll_enters, Scopes.enterAll_nil]

end Lox
