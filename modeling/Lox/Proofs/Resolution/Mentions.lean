import Lox.Proofs.Resolution.Scoping

/-! Where programs mention variables. Each mention stands in local scopes that declare certain names, some of
them perhaps further on in the program. A mention is clear if none of the scopes that lie between it and
the scope it refers to declares its name; then the name alone leads to that scope. -/
namespace Lox

/-- The names that a statement declares in the scope it stands in. -/
def Stmt.declares : Stmt → List Text
  | .declare name _ => [name.text]
  | .function decl => [decl.name.text]
  | .classDef name _ _ => [name.text]
  | .branch _ thenBranch none => thenBranch.declares
  | .branch _ thenBranch (some elseBranch) => thenBranch.declares ++ elseBranch.declares
  | .loop _ body => body.declares
  | .expression _ | .print _ | .block _ | .ret _ _ => []

/-- The names that a scope with these statements declares anywhere. -/
def Stmt.declaresAll (ss : List Stmt) : List Text := ss.flatMap Stmt.declares

/-- The names of a function's scope. -/
def FunctionDecl.declares (decl : FunctionDecl) : List Text :=
  decl.params.map (·.text) ++ Stmt.declaresAll decl.body

/-- A node that names a variable, and the names declared by the local scopes around it, the innermost first. -/
structure Mention where
  node : NodeId
  name : Text
  scopes : List (List Text)

namespace Mention

/-- The scopes on the way from a mention to the scope it refers to: all local ones if that is the globals. -/
def passed (L : Locals) (m : Mention) : List (List Text) :=
  match L[m.node]? with
  | some d => m.scopes.take d
  | none => m.scopes

/-- No scope on the way declares the name. -/
def Clear (L : Locals) (m : Mention) : Prop := ∀ names ∈ m.passed L, m.name ∉ names

instance (L : Locals) (m : Mention) : Decidable (m.Clear L) :=
  inferInstanceAs (Decidable (∀ names ∈ m.passed L, m.name ∉ names))

end Mention

mutual

/-- The mentions in an expression. -/
def Expr.mentions (Δ : List (List Text)) : Expr → List Mention
  | .literal _ => []
  | .group inner => inner.mentions Δ
  | .unary _ _ operand => operand.mentions Δ
  | .binary _ _ left right => left.mentions Δ ++ right.mentions Δ
  | .logical _ left right => left.mentions Δ ++ right.mentions Δ
  | .use ref => [⟨ref.id, ref.name.text, Δ⟩]
  | .assign ref value => value.mentions Δ ++ [⟨ref.id, ref.name.text, Δ⟩]
  | .call callee arguments _ => callee.mentions Δ ++ Expr.mentionsAll Δ arguments
  | .get object _ => object.mentions Δ
  | .set object _ value => value.mentions Δ ++ object.mentions Δ
  | .self id _ => [⟨id, Names.this, Δ⟩]
  | .superMethod _ _ _ => []

def Expr.mentionsAll (Δ : List (List Text)) : List Expr → List Mention
  | [] => []
  | e :: rest => e.mentions Δ ++ Expr.mentionsAll Δ rest

end

mutual

/-- The mentions in a statement. Methods stand in a scope that has `this`, and in a class with a superclass
in another that has `super`; the superclass is named outside both. -/
def Stmt.mentions (Δ : List (List Text)) : Stmt → List Mention
  | .expression e => e.mentions Δ
  | .print e => e.mentions Δ
  | .declare _ none => []
  | .declare _ (some e) => e.mentions Δ
  | .block body => Stmt.mentionsAll (Stmt.declaresAll body :: Δ) body
  | .branch condition thenBranch none => condition.mentions Δ ++ thenBranch.mentions Δ
  | .branch condition thenBranch (some elseBranch) =>
    condition.mentions Δ ++ (thenBranch.mentions Δ ++ elseBranch.mentions Δ)
  | .loop condition body => condition.mentions Δ ++ body.mentions Δ
  | .function decl => decl.mentions Δ
  | .ret _ none => []
  | .ret _ (some e) => e.mentions Δ
  | .classDef _ none methods => FunctionDecl.mentionsAll ([Names.this] :: Δ) methods
  | .classDef _ (some superclass) methods => ⟨superclass.id, superclass.name.text, Δ⟩ ::
    FunctionDecl.mentionsAll ([Names.this] :: [Names.super] :: Δ) methods

def Stmt.mentionsAll (Δ : List (List Text)) : List Stmt → List Mention
  | [] => []
  | s :: rest => s.mentions Δ ++ Stmt.mentionsAll Δ rest

def FunctionDecl.mentions (Δ : List (List Text)) : FunctionDecl → List Mention
  | ⟨name, params, body⟩ => Stmt.mentionsAll (FunctionDecl.declares ⟨name, params, body⟩ :: Δ) body

def FunctionDecl.mentionsAll (Δ : List (List Text)) : List FunctionDecl → List Mention
  | [] => []
  | decl :: rest => decl.mentions Δ ++ FunctionDecl.mentionsAll Δ rest

end

theorem Expr.mentionsAll_eq (Δ : List (List Text)) (es : List Expr) :
    Expr.mentionsAll Δ es = es.flatMap (Expr.mentions Δ) := by
  induction es with
  | nil => rfl
  | cons e rest ih => rw [Expr.mentionsAll, ih, List.flatMap_cons]

theorem Stmt.mentionsAll_eq (Δ : List (List Text)) (ss : List Stmt) :
    Stmt.mentionsAll Δ ss = ss.flatMap (Stmt.mentions Δ) := by
  induction ss with
  | nil => rfl
  | cons s rest ih => rw [Stmt.mentionsAll, ih, List.flatMap_cons]

theorem FunctionDecl.mentionsAll_eq (Δ : List (List Text)) (decls : List FunctionDecl) :
    FunctionDecl.mentionsAll Δ decls = decls.flatMap (FunctionDecl.mentions Δ) := by
  induction decls with
  | nil => rfl
  | cons decl rest ih => rw [FunctionDecl.mentionsAll, ih, List.flatMap_cons]

/-! A mention is one of the nodes of the program. -/

namespace Mention

/-- The mentions are made by these nodes. -/
def Among (ids : List NodeId) (ms : List Mention) : Prop := ∀ m ∈ ms, m.node ∈ ids

private theorem Among.none : Among ids [] := fun _ member => by cases member

private theorem Among.cons (rest : Among ids ms) : Among (m.node :: ids) (m :: ms) := by
  intro other member
  rcases List.mem_cons.1 member with rfl | later
  · exact List.mem_cons_self
  · exact List.mem_cons_of_mem _ (rest other later)

private theorem Among.append (first : Among xs ms) (second : Among ys ns) : Among (xs ++ ys) (ms ++ ns) := by
  intro m member
  rcases List.mem_append.1 member with left | right
  · exact List.mem_append_left _ (first m left)
  · exact List.mem_append_right _ (second m right)

end Mention

open Mention (Among)

mutual

theorem Expr.mentions_among (Δ : List (List Text)) : (e : Expr) → Among e.ids (e.mentions Δ)
  | .literal _ | .superMethod _ _ _ => .none
  | .group inner => inner.mentions_among Δ
  | .unary _ _ operand => operand.mentions_among Δ
  | .binary _ _ left right | .logical _ left right => (left.mentions_among Δ).append (right.mentions_among Δ)
  | .use _ | .self _ _ => .cons .none
  | .assign _ value => (value.mentions_among Δ).append (.cons .none)
  | .call callee arguments _ => (callee.mentions_among Δ).append (Expr.mentionsAll_among Δ arguments)
  | .get object _ => object.mentions_among Δ
  | .set object _ value => (value.mentions_among Δ).append (object.mentions_among Δ)

theorem Expr.mentionsAll_among (Δ : List (List Text)) : (es : List Expr) →
    Among (Expr.idsAll es) (Expr.mentionsAll Δ es)
  | [] => .none
  | e :: rest => (e.mentions_among Δ).append (Expr.mentionsAll_among Δ rest)

end

mutual

theorem Stmt.mentions_among : (s : Stmt) → (Δ : List (List Text)) → Among s.ids (s.mentions Δ)
  | .expression e, Δ | .print e, Δ | .declare _ (some e), Δ | .ret _ (some e), Δ => e.mentions_among Δ
  | .declare _ none, _ | .ret _ none, _ => .none
  | .block body, _ => Stmt.mentionsAll_among body _
  | .branch condition thenBranch none, Δ => (condition.mentions_among Δ).append (thenBranch.mentions_among Δ)
  | .branch condition thenBranch (some elseBranch), Δ =>
    (condition.mentions_among Δ).append ((thenBranch.mentions_among Δ).append (elseBranch.mentions_among Δ))
  | .loop condition body, Δ => (condition.mentions_among Δ).append (body.mentions_among Δ)
  | .function decl, Δ => decl.mentions_among Δ
  | .classDef _ none methods, _ => FunctionDecl.mentionsAll_among methods _
  | .classDef _ (some _) methods, _ => .cons (FunctionDecl.mentionsAll_among methods _)

theorem Stmt.mentionsAll_among : (ss : List Stmt) → (Δ : List (List Text)) →
    Among (Stmt.idsAll ss) (Stmt.mentionsAll Δ ss)
  | [], _ => .none
  | s :: rest, Δ => (s.mentions_among Δ).append (Stmt.mentionsAll_among rest Δ)

theorem FunctionDecl.mentions_among : (decl : FunctionDecl) → (Δ : List (List Text)) →
    Among decl.ids (decl.mentions Δ)
  | ⟨_, _, body⟩, _ => Stmt.mentionsAll_among body _

theorem FunctionDecl.mentionsAll_among : (decls : List FunctionDecl) → (Δ : List (List Text)) →
    Among (FunctionDecl.idsAll decls) (FunctionDecl.mentionsAll Δ decls)
  | [], _ => .none
  | decl :: rest, Δ => (decl.mentions_among Δ).append (FunctionDecl.mentionsAll_among rest Δ)

end

/-! The nearest `this` is the one that is meant: no other scope than that of methods has the name. -/

namespace Scopes

/-- Scopes in the middle of resolution, and all that they declare: if one declares `this`, it has it already. -/
inductive Shows : Scopes → List (List Text) → Prop where
  | nil : Shows [] []
  | cons (outer : Shows Γ Δ) (has : Names.this ∈ names → top.contains Names.this = true) :
      Shows (top :: Γ) (names :: Δ)

namespace Shows

private theorem enter (shows : Shows Γ Δ) (name : Text) (ready : Bool) : Shows (Γ.enter name ready) Δ := by
  cases shows with
  | nil => exact .nil
  | cons outer has =>
    refine .cons outer fun member => ?_
    rw [Table.contains_insert, has member, Bool.or_true]

private theorem after (shows : Shows Γ Δ) (s : Stmt) : Shows (s.after Γ) Δ := by
  unfold Stmt.after
  split
  · exact shows
  · exact shows.enter _ _

/-- A scope of ordinary names. -/
theorem push (shows : Shows Γ Δ) (ordinary : ∀ name ∈ names, Ordinary name) : Shows (top :: Γ) (names :: Δ) :=
  .cons shows fun member => absurd rfl (ordinary _ member).1

private theorem pushThis (shows : Shows Γ Δ) : Shows (thisScope :: Γ) ([Names.this] :: Δ) :=
  .cons shows fun _ => by decide

private theorem pushSuper (shows : Shows Γ Δ) : Shows (superScope :: Γ) ([Names.super] :: Δ) :=
  .cons shows fun member => absurd member (by decide)

/-- The scopes before the one that resolution has found do not declare `this` further on either. -/
theorem clear {id : NodeId} (shows : Shows Γ Δ) (records : L.Records Γ id Names.this) : Mention.Clear L ⟨id, Names.this, Δ⟩ := by
  unfold Mention.Clear Mention.passed
  rw [records]
  clear records
  induction shows with
  | nil => exact fun _ member => by cases member
  | @cons Γ Δ names top outer has ih =>
    have found : Resolver.distance? (top :: Γ) Names.this =
        if top.contains Names.this then some 0 else (Resolver.distance? Γ Names.this).map (· + 1) :=
      List.findIdx?_cons
    by_cases here : top.contains Names.this = true
    · simp only [found, if_pos here, List.take_zero]
      intro names member
      cases member
    · have absent : Names.this ∉ names := fun member => here (has member)
      rw [found, if_neg here]
      cases further : Resolver.distance? Γ Names.this with
      | none =>
        rw [further] at ih
        exact List.forall_mem_cons.2 ⟨absent, ih⟩
      | some d =>
        rw [further] at ih
        exact List.forall_mem_cons.2 ⟨absent, ih⟩

end Shows
end Scopes

private theorem Stmt.Formed.declares : (s : Stmt) → s.Formed ok → ∀ name ∈ s.declares, ok name
  | .declare _ none, formed => List.forall_mem_singleton.2 formed
  | .declare _ (some _), formed | .function ⟨_, _, _⟩, formed | .classDef _ none _, formed
  | .classDef _ (some _) _, formed => List.forall_mem_singleton.2 formed.1
  | .branch _ thenBranch none, formed => Stmt.Formed.declares thenBranch formed.2.1
  | .branch _ thenBranch (some elseBranch), formed => by
    intro name member
    rcases List.mem_append.1 member with left | right
    · exact Stmt.Formed.declares thenBranch formed.2.1.1 name left
    · exact Stmt.Formed.declares elseBranch formed.2.2.1 name right
  | .loop _ body, formed => Stmt.Formed.declares body formed.2.1
  | .expression _, _ | .print _, _ | .block _, _ | .ret _ _, _ => fun _ member => by cases member

private theorem Stmt.FormedAll.declares (formed : Stmt.FormedAll ok ss) : ∀ name ∈ Stmt.declaresAll ss, ok name := by
  induction ss with
  | nil => intro name member; cases member
  | cons s rest ih =>
    intro name member
    rcases List.mem_append.1 member with here | later
    · exact Stmt.Formed.declares s formed.1 name here
    · exact ih formed.2 name later

/-- What names `this` among the mentions is clear. -/
def Mention.ThisClear (L : Locals) (ms : List Mention) : Prop := ∀ m ∈ ms, m.name = Names.this → m.Clear L

namespace Mention.ThisClear

private theorem none : ThisClear L [] := fun _ member => by cases member

private theorem cons (first : m.name = Names.this → m.Clear L) (rest : ThisClear L ms) : ThisClear L (m :: ms) :=
  List.forall_mem_cons.2 ⟨first, rest⟩

private theorem append (first : ThisClear L ms) (second : ThisClear L ns) : ThisClear L (ms ++ ns) :=
  List.forall_mem_append.2 ⟨first, second⟩

/-- An ordinary name is not `this`. -/
theorem ordinary {id : NodeId} {name : Text} (formed : Ordinary name) (rest : ThisClear L ms) : ThisClear L (⟨id, name, Δ⟩ :: ms) :=
  cons (fun this => absurd this formed.1) rest

end Mention.ThisClear

open Mention (ThisClear)

mutual

theorem Expr.thisClear (shows : Scopes.Shows Γ Δ) : (e : Expr) → e.Scoped L within Γ → e.Formed Ordinary →
    ThisClear L (e.mentions Δ)
  | .literal _, _, _ | .superMethod _ _ _, _, _ => .none
  | .group inner, found, formed => inner.thisClear shows found formed
  | .unary _ _ operand, found, formed => operand.thisClear shows found formed
  | .binary _ _ left right, found, formed | .logical _ left right, found, formed =>
    (left.thisClear shows found.1 formed.1).append (right.thisClear shows found.2 formed.2)
  | .use _, _, formed => .ordinary formed .none
  | .assign _ value, found, formed =>
    (value.thisClear shows found.1 formed.1).append (.ordinary formed.2 .none)
  | .call callee arguments _, found, formed =>
    (callee.thisClear shows found.1 formed.1).append (Expr.thisClearAll shows arguments found.2 formed.2)
  | .get object _, found, formed => object.thisClear shows found formed
  | .set object _ value, found, formed =>
    (value.thisClear shows found.2 formed.2).append (object.thisClear shows found.1 formed.1)
  | .self _ _, found, _ => .cons (fun _ => shows.clear found.2) .none

theorem Expr.thisClearAll (shows : Scopes.Shows Γ Δ) : (es : List Expr) → Expr.ScopedAll L within Γ es →
    Expr.FormedAll Ordinary es → ThisClear L (Expr.mentionsAll Δ es)
  | [], _, _ => .none
  | e :: rest, found, formed =>
    (e.thisClear shows found.1 formed.1).append (Expr.thisClearAll shows rest found.2 formed.2)

end

mutual

theorem Stmt.thisClear (shows : Scopes.Shows Γ Δ) : (s : Stmt) → s.Scoped L around Γ → s.Formed Ordinary →
    ThisClear L (s.mentions Δ)
  | .expression e, found, formed | .print e, found, formed => e.thisClear shows found formed
  | .declare _ none, _, _ | .ret _ none, _, _ => .none
  | .declare _ (some e), found, formed => e.thisClear (shows.enter _ _) found.2 formed.2
  | .ret _ (some e), found, formed => e.thisClear shows found.2.2 formed
  | .block body, found, formed => Stmt.thisClearAll (shows.push (Stmt.FormedAll.declares formed)) body found formed
  | .branch condition thenBranch none, found, formed =>
    (condition.thisClear shows found.1 formed.1).append (thenBranch.thisClear shows found.2 formed.2.1)
  | .branch condition thenBranch (some elseBranch), found, formed =>
    (condition.thisClear shows found.1 formed.1).append
      ((thenBranch.thisClear shows found.2.1 formed.2.1.1).append
        (elseBranch.thisClear shows found.2.2 formed.2.2.1))
  | .loop condition body, found, formed =>
    (condition.thisClear shows found.1 formed.1).append (body.thisClear shows found.2 formed.2.1)
  | .function decl, found, formed => decl.thisClear (shows.enter _ _) found.2 formed
  | .classDef _ none methods, found, formed =>
    FunctionDecl.thisClearAll (shows.enter _ _).pushThis methods found.2 formed.2
  | .classDef _ (some _) methods, found, formed => .ordinary formed.2.1
    (FunctionDecl.thisClearAll (shows.enter _ _).pushSuper.pushThis methods found.2.2.2 formed.2.2)

theorem Stmt.thisClearAll (shows : Scopes.Shows Γ Δ) : (ss : List Stmt) → Stmt.ScopedAll L around Γ ss →
    Stmt.FormedAll Ordinary ss → ThisClear L (Stmt.mentionsAll Δ ss)
  | [], _, _ => .none
  | s :: rest, found, formed =>
    (s.thisClear shows found.1 formed.1).append (Stmt.thisClearAll (shows.after s) rest found.2 formed.2)

theorem FunctionDecl.thisClear (shows : Scopes.Shows Γ Δ) : (decl : FunctionDecl) → decl.Scoped L around Γ →
    decl.Formed Ordinary → ThisClear L (decl.mentions Δ)
  | ⟨name, params, body⟩, found, formed => by
    have ordinary : ∀ declared ∈ FunctionDecl.declares ⟨name, params, body⟩, Ordinary declared := by
      intro declared member
      rcases List.mem_append.1 member with isParam | inBody
      · obtain ⟨param, here, rfl⟩ := List.mem_map.1 isParam
        exact formed.2.1 param here
      · exact formed.2.2.declares declared inBody
    exact Stmt.thisClearAll (shows.push ordinary) body found.2 formed.2.2

theorem FunctionDecl.thisClearAll (shows : Scopes.Shows Γ Δ) : (decls : List FunctionDecl) →
    FunctionDecl.ScopedAll L around Γ decls → FunctionDecl.FormedAll Ordinary decls →
      ThisClear L (FunctionDecl.mentionsAll Δ decls)
  | [], _, _ => .none
  | decl :: rest, found, formed =>
    (decl.thisClear shows found.1 formed.1).append (FunctionDecl.thisClearAll shows rest found.2 formed.2)

end
end Lox
