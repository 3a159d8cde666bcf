import Lox.Proofs.Tree.Grammar

/-! The nodes of a tree that name variables: their identities and the names themselves. In a tree of
the grammar each identity occurs once and lies between the identities handed out before and after, and
each name is an identifier of the program. -/
namespace Lox

mutual

/-- The identities of the nodes of an expression, in the order in which they are resolved. -/
def Expr.ids : Expr → List NodeId
  | .literal _ => []
  | .group inner => inner.ids
  | .unary _ _ operand => operand.ids
  | .binary _ _ left right => left.ids ++ right.ids
  | .logical _ left right => left.ids ++ right.ids
  | .use ref => [ref.id]
  | .assign ref value => value.ids ++ [ref.id]
  | .call callee arguments _ => callee.ids ++ Expr.idsAll arguments
  | .get object _ => object.ids
  | .set object _ value => value.ids ++ object.ids
  | .self id _ => [id]
  | .superMethod id _ _ => [id]

def Expr.idsAll : List Expr → List NodeId
  | [] => []
  | e :: rest => e.ids ++ Expr.idsAll rest

end

mutual

/-- The identities of the nodes of a statement. -/
def Stmt.ids : Stmt → List NodeId
  | .expression e => e.ids
  | .print e => e.ids
  | .declare _ none => []
  | .declare _ (some e) => e.ids
  | .block body => Stmt.idsAll body
  | .branch condition thenBranch none => condition.ids ++ thenBranch.ids
  | .branch condition thenBranch (some elseBranch) => condition.ids ++ (thenBranch.ids ++ elseBranch.ids)
  | .loop condition body => condition.ids ++ body.ids
  | .function decl => decl.ids
  | .ret _ none => []
  | .ret _ (some e) => e.ids
  | .classDef _ none methods => FunctionDecl.idsAll methods
  | .classDef _ (some superclass) methods => superclass.id :: FunctionDecl.idsAll methods

def Stmt.idsAll : List Stmt → List NodeId
  | [] => []
  | s :: rest => s.ids ++ Stmt.idsAll rest

def FunctionDecl.ids : FunctionDecl → List NodeId
  | ⟨_, _, body⟩ => Stmt.idsAll body

def FunctionDecl.idsAll : List FunctionDecl → List NodeId
  | [] => []
  | decl :: rest => decl.ids ++ FunctionDecl.idsAll rest

end

/-- Pieces of a program. -/
inductive Code
  | expr (e : Expr)
  | exprs (es : List Expr)
  | stmt (s : Stmt)
  | stmts (ss : List Stmt)
  | function (decl : FunctionDecl)
  | functions (decls : List FunctionDecl)

def Code.ids : Code → List NodeId
  | .expr e => e.ids
  | .exprs es => Expr.idsAll es
  | .stmt s => s.ids
  | .stmts ss => Stmt.idsAll ss
  | .function decl => decl.ids
  | .functions decls => FunctionDecl.idsAll decls

/-- The name that a statement declares in the scope it stands in. -/
def Stmt.declared? : Stmt → Option Text
  | .declare name _ => some name.text
  | .function decl => some decl.name.text
  | .classDef name _ _ => some name.text
  | _ => none

mutual

/-- The variables that an expression names satisfy `ok`. -/
def Expr.Formed (ok : Text → Prop) : Expr → Prop
  | .literal _ => True
  | .group inner => inner.Formed ok
  | .unary _ _ operand => operand.Formed ok
  | .binary _ _ left right => left.Formed ok ∧ right.Formed ok
  | .logical _ left right => left.Formed ok ∧ right.Formed ok
  | .use ref => ok ref.name.text
  | .assign ref value => value.Formed ok ∧ ok ref.name.text
  | .call callee arguments _ => callee.Formed ok ∧ Expr.FormedAll ok arguments
  | .get object _ => object.Formed ok
  | .set object _ value => object.Formed ok ∧ value.Formed ok
  | .self _ _ => True
  | .superMethod _ _ _ => True

def Expr.FormedAll (ok : Text → Prop) : List Expr → Prop
  | [] => True
  | e :: rest => e.Formed ok ∧ Expr.FormedAll ok rest

end

mutual

/-- The variables that a statement names satisfy `ok`, and what a branch or a loop runs declares
nothing in the scope around it. -/
def Stmt.Formed (ok : Text → Prop) : Stmt → Prop
  | .expression e => e.Formed ok
  | .print e => e.Formed ok
  | .declare name none => ok name.text
  | .declare name (some e) => ok name.text ∧ e.Formed ok
  | .block body => Stmt.FormedAll ok body
  | .branch condition thenBranch none =>
    condition.Formed ok ∧ thenBranch.Formed ok ∧ thenBranch.declared? = none
  | .branch condition thenBranch (some elseBranch) =>
    condition.Formed ok ∧ (thenBranch.Formed ok ∧ thenBranch.declared? = none) ∧
      elseBranch.Formed ok ∧ elseBranch.declared? = none
  | .loop condition body => condition.Formed ok ∧ body.Formed ok ∧ body.declared? = none
  | .function decl => decl.Formed ok
  | .ret _ none => True
  | .ret _ (some e) => e.Formed ok
  | .classDef name none methods => ok name.text ∧ FunctionDecl.FormedAll ok methods
  | .classDef name (some superclass) methods =>
    ok name.text ∧ ok superclass.name.text ∧ FunctionDecl.FormedAll ok methods

def Stmt.FormedAll (ok : Text → Prop) : List Stmt → Prop
  | [] => True
  | s :: rest => s.Formed ok ∧ Stmt.FormedAll ok rest

def FunctionDecl.Formed (ok : Text → Prop) : FunctionDecl → Prop
  | ⟨name, params, body⟩ => ok name.text ∧ (∀ param ∈ params, ok param.text) ∧ Stmt.FormedAll ok body

def FunctionDecl.FormedAll (ok : Text → Prop) : List FunctionDecl → Prop
  | [] => True
  | decl :: rest => decl.Formed ok ∧ FunctionDecl.FormedAll ok rest

end

def Code.Formed (ok : Text → Prop) : Code → Prop
  | .expr e => e.Formed ok
  | .exprs es => Expr.FormedAll ok es
  | .stmt s => s.Formed ok
  | .stmts ss => Stmt.FormedAll ok ss
  | .function decl => decl.Formed ok
  | .functions decls => FunctionDecl.FormedAll ok decls

mutual

/-- Whether an expression assigns to a variable of the given name. -/
def Expr.assigns (name : Text) : Expr → Bool
  | .literal _ => false
  | .group inner => inner.assigns name
  | .unary _ _ operand => operand.assigns name
  | .binary _ _ left right => left.assigns name || right.assigns name
  | .logical _ left right => left.assigns name || right.assigns name
  | .use _ => false
  | .assign ref value => ref.name.text == name || value.assigns name
  | .call callee arguments _ => callee.assigns name || Expr.anyAssigns name arguments
  | .get object _ => object.assigns name
  | .set object _ value => object.assigns name || value.assigns name
  | .self _ _ => false
  | .superMethod _ _ _ => false

def Expr.anyAssigns (name : Text) : List Expr → Bool
  | [] => false
  | e :: rest => e.assigns name || Expr.anyAssigns name rest

end

mutual

/-- Whether a variable of a local scope is assigned to in its own initializer, in the statement or in
one of its parts. The truth value says whether the statement itself stands in a local scope. -/
def Stmt.assignsInOwn (inner : Bool) : Stmt → Bool
  | .expression _ => false
  | .print _ => false
  | .declare _ none => false
  | .declare name (some e) => inner && e.assigns name.text
  | .block body => Stmt.anyAssignsInOwn true body
  | .branch _ thenBranch none => thenBranch.assignsInOwn inner
  | .branch _ thenBranch (some elseBranch) => thenBranch.assignsInOwn inner || elseBranch.assignsInOwn inner
  | .loop _ body => body.assignsInOwn inner
  | .function decl => decl.assignsInOwn
  | .ret _ _ => false
  | .classDef _ _ methods => FunctionDecl.anyAssignsInOwn methods

def Stmt.anyAssignsInOwn (inner : Bool) : List Stmt → Bool
  | [] => false
  | s :: rest => s.assignsInOwn inner || Stmt.anyAssignsInOwn inner rest

def FunctionDecl.assignsInOwn : FunctionDecl → Bool
  | ⟨_, _, body⟩ => Stmt.anyAssignsInOwn true body

def FunctionDecl.anyAssignsInOwn : List FunctionDecl → Bool
  | [] => false
  | decl :: rest => decl.assignsInOwn || FunctionDecl.anyAssignsInOwn rest

end

def Code.assignsInOwn (inner : Bool) : Code → Bool
  | .expr _ => false
  | .exprs _ => false
  | .stmt s => s.assignsInOwn inner
  | .stmts ss => Stmt.anyAssignsInOwn inner ss
  | .function decl => decl.assignsInOwn
  | .functions decls => FunctionDecl.anyAssignsInOwn decls

/-- Identities handed out after `i` and up to `j`, each of them once. -/
structure Fresh (i j : Nat) (ids : List Nat) : Prop where
  ordered : i ≤ j
  distinct : ids.Nodup
  above : ∀ id ∈ ids, i < id
  within : ∀ id ∈ ids, id ≤ j

namespace Fresh

theorem none (i : Nat) : Fresh i i [] := ⟨Nat.le_refl i, .nil, nofun, nofun⟩

theorem next (i : Nat) : Fresh i (i + 1) [i + 1] :=
  ⟨Nat.le_succ i, List.nodup_cons.2 ⟨List.not_mem_nil, .nil⟩, by simp, by simp⟩

theorem append (first : Fresh i j xs) (second : Fresh j k ys) : Fresh i k (xs ++ ys) := by
  refine ⟨Nat.le_trans first.ordered second.ordered, ?_, ?_, ?_⟩
  · refine List.nodup_append.2 ⟨first.distinct, second.distinct, ?_⟩
    intro x left y right same
    have low := first.within x left
    have high := second.above y right
    omega
  · intro id member
    rcases List.mem_append.1 member with left | right
    · exact first.above id left
    · exact Nat.lt_of_le_of_lt first.ordered (second.above id right)
  · intro id member
    rcases List.mem_append.1 member with left | right
    · exact Nat.le_trans (first.within id left) second.ordered
    · exact second.within id right

/-- The order of the identities does not matter. -/
theorem reorder (fresh : Fresh i j xs) (same : xs.Perm ys) : Fresh i j ys :=
  ⟨fresh.ordered, same.nodup fresh.distinct, fun id member => fresh.above id (same.mem_iff.2 member),
    fun id member => fresh.within id (same.mem_iff.2 member)⟩

/-- An identity may be handed out and not used. -/
theorem skip (fresh : Fresh (i + 1) j xs) : Fresh i j xs := by
  refine ⟨?_, fresh.distinct, ?_, fresh.within⟩
  · have := fresh.ordered
    omega
  · intro id member
    have := fresh.above id member
    omega

end Fresh

namespace Grammar

def Phrase.ids : Phrase → List NodeId
  | .expr _ e => e.ids
  | .optional none => []
  | .optional (some e) => e.ids
  | .arguments es => Expr.idsAll es
  | .variableDecl s => s.ids
  | .forClause none => []
  | .forClause (some s) => s.ids
  | .statement s _ => s.ids
  | .declaration s => s.ids
  | .declarations ss => Stmt.idsAll ss
  | .function decl => decl.ids
  | .methods decls => FunctionDecl.idsAll decls

/-- The parts of a `for` statement stand in its tree in another order. -/
theorem forLoop_ids (init : Option Stmt) (condition step : Option Expr) (body : Stmt) :
    ((Phrase.forClause init).ids ++ ((Phrase.optional condition).ids ++
      ((Phrase.optional step).ids ++ body.ids))).Perm (Stmt.forLoop init condition step body).ids := by
  have round : ∀ step : Expr, (step.ids ++ body.ids).Perm (Stmt.block [body, .expression step]).ids := by
    intro step
    simp only [Stmt.ids, Stmt.idsAll, List.append_nil]
    exact List.perm_append_comm
  have test : (Phrase.optional condition).ids = (condition.getD (.literal (.bool true))).ids := by
    cases condition <;> rfl
  cases init with
  | none =>
    simp only [Phrase.ids, List.nil_append, Stmt.forLoop, Stmt.ids, ← test]
    refine List.Perm.append_left _ ?_
    cases step with
    | none => exact .refl _
    | some step => exact round step
  | some first =>
    simp only [Phrase.ids, Stmt.forLoop, Stmt.ids, Stmt.idsAll, List.append_nil, ← test]
    refine List.Perm.append_left _ (List.Perm.append_left _ ?_)
    cases step with
    | none => exact .refl _
    | some step => exact round step

private theorem Rank.join?_ids {rank : Rank} (operator : rank.join? kind = some node) :
    (node line a b).ids = a.ids ++ b.ids := by
  obtain ⟨op, rfl⟩ | ⟨op, rfl⟩ := Rank.join?_node operator <;> rfl

/-- The nodes of a phrase have identities of their own, handed out while the phrase is read. -/
theorem Derives.fresh (derived : Derives rule phrase ts i j) : Fresh i j phrase.ids := by
  induction derived with
  | literal | noArguments | absent | noClause | bareVariable | noMethods | noDeclarations =>
    exact .none _
  | this | use | super => exact .next _
  | group _ _ _ inner | lift _ _ inner | sign _ _ inner | get _ _ _ inner | present _ inner
  | expression _ _ inner | print _ _ _ inner | block _ _ _ inner | variableClause _ _ inner
  | expressionClause _ _ inner | initializedVariable _ _ _ _ inner | variableDeclaration _ _ inner
  | functionDeclaration _ _ inner | plainClass _ _ _ _ _ inner | statement _ inner
  | function _ _ _ _ _ _ _ _ inner => exact inner
  | oneArgument _ only =>
    simp only [Phrase.ids, Expr.idsAll, List.append_nil]
    exact only
  | @ret e _ _ _ _ _ _ _ _ value => cases e <;> exact value
  | set _ _ _ _ _ object value => exact (object.append value).reorder List.perm_append_comm
  | call _ _ _ _ _ first second | moreArguments _ _ _ first second | whileLoop _ _ _ _ _ first second
  | ifOnly _ _ _ _ _ first second | moreMethods _ _ first second | moreDeclarations _ _ first second => exact first.append second
  | join operator _ _ _ left right =>
    simp only [Phrase.ids, Rank.join?_ids operator]
    exact left.append right
  | assign _ _ _ value => exact value.skip.append (.next _)
  | ifElse _ _ _ _ _ _ _ _ condition thenPart elsePart => exact condition.append (thenPart.append elsePart)
  | forLoop _ _ _ _ _ _ _ _ first condition increment body =>
    have all := first.append (condition.append (increment.append body))
    exact all.reorder (forLoop_ids _ _ _ _)
  | subclass _ _ _ _ _ _ _ body => exact (Fresh.next _).append body

def Phrase.Formed (ok : Text → Prop) : Phrase → Prop
  | .expr _ e => e.Formed ok
  | .optional e => ∀ inner ∈ e, inner.Formed ok
  | .arguments es => Expr.FormedAll ok es
  | .variableDecl s => s.Formed ok
  | .forClause first => ∀ s ∈ first, s.Formed ok
  | .statement s _ => s.Formed ok ∧ s.declared? = none
  | .declaration s => s.Formed ok
  | .declarations ss => Stmt.FormedAll ok ss
  | .function decl => decl.Formed ok
  | .methods decls => FunctionDecl.FormedAll ok decls

private theorem forLoop_formed (first : (Phrase.forClause init).Formed ok)
    (condition : (Phrase.optional c).Formed ok) (increment : (Phrase.optional step).Formed ok)
    (body : (Phrase.statement s isOpen).Formed ok) :
    (Phrase.statement (.forLoop init c step s) isOpen).Formed ok := by
  have test : (c.getD (.literal (.bool true))).Formed ok := by
    cases c with
    | none => trivial
    | some c => exact condition c rfl
  cases init <;> cases step <;>
    simp_all [Phrase.Formed, Stmt.forLoop, Stmt.Formed, Stmt.FormedAll, Stmt.declared?]

private theorem Rank.join?_formed {rank : Rank} (operator : rank.join? kind = some node) (left : a.Formed ok)
    (right : b.Formed ok) : (node line a b).Formed ok := by
  obtain ⟨op, rfl⟩ | ⟨op, rfl⟩ := Rank.join?_node operator <;> exact ⟨left, right⟩

/-- The identifiers among the tokens satisfy `ok`. -/
def Identifiers (ok : Text → Prop) (ts : List Token) : Prop := ∀ t ∈ ts, t.kind = .identifier → ok t.lexeme

@[simp] theorem identifiers_nil : Identifiers ok [] := nofun

@[simp] theorem identifiers_cons :
    Identifiers ok (t :: ts) ↔ (t.kind = .identifier → ok t.lexeme) ∧ Identifiers ok ts :=
  List.forall_mem_cons

@[simp] theorem identifiers_append :
    Identifiers ok (ts ++ us) ↔ Identifiers ok ts ∧ Identifiers ok us :=
  List.forall_mem_append

private theorem Parameters.formed (params : Parameters ts ps) (names : Identifiers ok ts) :
    ∀ param ∈ ps, ok param.text := by
  induction params with
  | none => nofun
  | one named =>
    simp only [identifiers_cons, identifiers_nil, and_true] at names
    exact List.forall_mem_cons.2 ⟨names named, nofun⟩
  | more named mark rest ih =>
    simp only [identifiers_cons] at names
    exact List.forall_mem_cons.2 ⟨names.1 named, ih names.2.2⟩

/-- The variables of a phrase are named by identifiers among its tokens. -/
theorem Derives.formed (derived : Derives rule phrase ts i j) (names : Identifiers ok ts) :
    phrase.Formed ok := by
  induction derived with try simp only [identifiers_cons, identifiers_append, identifiers_nil, and_true] at names
  | literal | this | super | noArguments | noMethods | noDeclarations => trivial
  | absent | noClause => nofun
  | use named => exact names named
  | bareVariable named mark => exact names.1 named
  | group _ _ _ inner => exact inner names.2.1
  | lift _ _ inner => exact inner names
  | sign _ _ inner => exact inner names.2
  | get _ _ _ inner => exact inner names.1
  | call _ _ _ _ _ callee args => exact ⟨callee names.1, args names.2.2.1⟩
  | join operator _ _ _ left right => exact Rank.join?_formed operator (left names.1) (right names.2.2)
  | assign named _ _ value => exact ⟨value names.2.2, names.1 named⟩
  | set _ _ _ _ _ object value => exact ⟨object names.1, value names.2.2.2.2⟩
  | oneArgument _ only => exact ⟨only names, trivial⟩
  | moreArguments _ _ _ first rest => exact ⟨first names.1, rest names.2.2⟩
  | present _ inner =>
    rintro _ ⟨⟩
    exact inner names
  | expression _ _ inner => exact ⟨inner names.1, rfl⟩
  | print _ _ _ inner => exact ⟨inner names.2.1, rfl⟩
  | @ret e _ _ _ _ _ _ _ _ value =>
    cases e with
    | none => exact ⟨trivial, rfl⟩
    | some e => exact ⟨value names.2.1 e rfl, rfl⟩
  | block _ _ _ body => exact ⟨body names.2.1, rfl⟩
  | whileLoop _ _ _ _ _ condition body => exact ⟨⟨condition names.2.2.1, body names.2.2.2.2⟩, rfl⟩
  | ifOnly _ _ _ _ _ condition thenPart => exact ⟨⟨condition names.2.2.1, thenPart names.2.2.2.2⟩, rfl⟩
  | ifElse _ _ _ _ _ _ _ _ condition thenPart elsePart =>
    exact ⟨⟨condition names.2.2.1, thenPart names.2.2.2.2.1, elsePart names.2.2.2.2.2.2⟩, rfl⟩
  | forLoop _ _ _ _ _ _ _ _ first condition increment body =>
    exact forLoop_formed (first names.2.2.1) (condition names.2.2.2.1) (increment names.2.2.2.2.2.1)
      (body names.2.2.2.2.2.2.2)
  | variableClause _ _ decl =>
    rintro _ ⟨⟩
    exact decl names.2
  | expressionClause _ _ inner =>
    rintro _ ⟨⟩
    exact inner names.1
  | initializedVariable named _ _ _ value => exact ⟨names.1 named, value names.2.2.1⟩
  | variableDeclaration _ _ decl => exact decl names.2
  | functionDeclaration _ _ decl => exact decl names.2
  | plainClass _ named _ _ _ body => exact ⟨names.2.1 named, body names.2.2.2.1⟩
  | subclass _ named _ parent _ _ _ body =>
    exact ⟨names.2.1 named, names.2.2.2.1 parent, body names.2.2.2.2.2.1⟩
  | statement _ inner => exact (inner names).1
  | function named _ params _ _ _ _ _ body =>
    exact ⟨names.1 named, params.formed names.2.2.1, body names.2.2.2.2.2.1⟩
  | moreMethods _ _ first rest => exact ⟨first names.1, rest names.2⟩
  | moreDeclarations _ _ first rest => exact ⟨first names.1, rest names.2⟩

end Grammar
end Lox
