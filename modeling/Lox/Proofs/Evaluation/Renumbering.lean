import Lox.Proofs.Evaluation.Likeness
import Lox.Proofs.Tree.Numbering

/-! A program whose nodes have other identities. Resolution finds the same errors in it and records the
same distances under the new identities, and its evaluation goes the same way. -/
namespace Lox

variable {f : NodeId → NodeId}

@[simp] theorem FunctionDecl.renumber_name (decl : FunctionDecl) : (decl.renumber f).name = decl.name := by
  cases decl
  rfl

/-! Resolution. -/

/-- Under its new identity each node has the distance it had. -/
def Locals.Follows (f : NodeId → NodeId) (L L' : Locals) : Prop := ∀ node, L'[f node]? = L[node]?

/-- The walks through a program and its renumbered copy. -/
structure Resolver.Mirrors (f : NodeId → NodeId) (r r' : Resolver) : Prop where
  injective : ∀ {i j}, f i = f j → i = j
  scopes : r'.scopes = r.scopes
  errors : r'.errors = r.errors
  locals : r.locals.Follows f r'.locals

namespace Resolver.Mirrors

variable {r r' : Resolver}

private theorem report (mirrors : Mirrors f r r') : Mirrors f (r.report cause name) (r'.report cause name) :=
  ⟨mirrors.injective, mirrors.scopes, congrArg (· ++ _) mirrors.errors, mirrors.locals⟩

private theorem push (mirrors : Mirrors f r r') (scope : Table Bool) : Mirrors f (r.push scope) (r'.push scope) :=
  ⟨mirrors.injective, congrArg (scope :: ·) mirrors.scopes, mirrors.errors, mirrors.locals⟩

private theorem pop (mirrors : Mirrors f r r') : Mirrors f r.pop r'.pop :=
  ⟨mirrors.injective, congrArg List.tail mirrors.scopes, mirrors.errors, mirrors.locals⟩

private theorem declare (mirrors : Mirrors f r r') (name : Ident) : Mirrors f (r.declare name) (r'.declare name) := by
  unfold Resolver.declare
  rw [mirrors.scopes]
  cases r.scopes with
  | nil => exact mirrors
  | cons top outer =>
    simp only
    split
    · exact ⟨mirrors.injective, rfl, mirrors.report.errors, mirrors.locals⟩
    · exact ⟨mirrors.injective, rfl, mirrors.errors, mirrors.locals⟩

private theorem define (mirrors : Mirrors f r r') (name : Ident) : Mirrors f (r.define name) (r'.define name) := by
  unfold Resolver.define
  rw [mirrors.scopes]
  cases r.scopes with
  | nil => exact mirrors
  | cons top outer => exact ⟨mirrors.injective, rfl, mirrors.errors, mirrors.locals⟩

private theorem declareParams (mirrors : Mirrors f r r') (params : List Ident) :
    Mirrors f (r.declareParams params) (r'.declareParams params) := by
  induction params generalizing r r' with
  | nil => exact mirrors
  | cons param rest ih => exact ih ((mirrors.declare param).define param)

private theorem checkReturn (mirrors : Mirrors f r r') (around : Surroundings) :
    Mirrors f (r.checkReturn around line hasValue) (r'.checkReturn around line hasValue) := by
  simp only [Resolver.checkReturn]
  split
  · exact mirrors.report
  · split
    · exact mirrors.report
    · exact mirrors
  · exact mirrors

private theorem record (mirrors : Mirrors f r r') (node : NodeId) (name : Text) :
    Mirrors f (r.record node name) (r'.record (f node) name) := by
  unfold Resolver.record
  rw [mirrors.scopes]
  split
  · exact mirrors
  · refine ⟨mirrors.injective, rfl, mirrors.errors, fun other => ?_⟩
    have same : f node = f other ↔ node = other := ⟨mirrors.injective, congrArg f⟩
    simp only [Std.TreeMap.getElem?_insert, Nat.compare_eq_eq, same]
    split
    · rfl
    · exact mirrors.locals other

private theorem use (mirrors : Mirrors f r r') (ref : Reference) :
    Mirrors f (r.use ref) (r'.use (ref.renumber f)) := by
  have copy : r'.use (ref.renumber f) =
      (if r'.scopes.head?.any fun top => top.find? ref.name.text = some false then
        r'.report .readInOwnInitializer ref.name else r').record (f ref.id) ref.name.text := rfl
  rw [copy, Resolver.use, mirrors.scopes]
  split
  · exact mirrors.report.record _ _
  · exact mirrors.record _ _

private theorem useThis (mirrors : Mirrors f r r') (around : Surroundings) (node : NodeId) (line : Nat) :
    Mirrors f (r.useThis around node line) (r'.useThis around (f node) line) := by
  unfold Resolver.useThis
  split
  · exact mirrors.report
  · exact mirrors.record _ _

private theorem useSuper (mirrors : Mirrors f r r') (around : Surroundings) (node : NodeId) (line : Nat) :
    Mirrors f (r.useSuper around node line) (r'.useSuper around (f node) line) := by
  simp only [Resolver.useSuper]
  split
  · exact mirrors.report.record _ _
  · exact mirrors.report.record _ _
  · exact mirrors.record _ _

end Resolver.Mirrors

open Resolver

mutual

theorem Expr.resolve_renumber (around : Surroundings) : (e : Expr) → {r r' : Resolver} → Mirrors f r r' →
    Mirrors f (e.resolve around r) ((e.renumber f).resolve around r')
  | .literal _, _, _, mirrors => mirrors
  | .group inner, _, _, mirrors | .unary _ _ inner, _, _, mirrors | .get inner _, _, _, mirrors =>
    inner.resolve_renumber around mirrors
  | .binary _ _ left right, _, _, mirrors | .logical _ left right, _, _, mirrors =>
    right.resolve_renumber around (left.resolve_renumber around mirrors)
  | .use ref, _, _, mirrors => mirrors.use ref
  | .assign _ value, _, _, mirrors => (value.resolve_renumber around mirrors).record _ _
  | .call callee arguments _, _, _, mirrors =>
    Expr.resolveAll_renumber around arguments (callee.resolve_renumber around mirrors)
  | .set object _ value, _, _, mirrors =>
    object.resolve_renumber around (value.resolve_renumber around mirrors)
  | .self _ _, _, _, mirrors => mirrors.useThis around _ _
  | .superMethod _ _ _, _, _, mirrors => mirrors.useSuper around _ _

theorem Expr.resolveAll_renumber (around : Surroundings) : (es : List Expr) → {r r' : Resolver} →
    Mirrors f r r' → Mirrors f (Expr.resolveAll around es r) (Expr.resolveAll around (Expr.renumberAll f es) r')
  | [], _, _, mirrors => mirrors
  | e :: rest, _, _, mirrors => Expr.resolveAll_renumber around rest (e.resolve_renumber around mirrors)

end

mutual

theorem Stmt.resolve_renumber (around : Surroundings) : (s : Stmt) → {r r' : Resolver} → Mirrors f r r' →
    Mirrors f (s.resolve around r) ((s.renumber f).resolve around r')
  | .expression e, _, _, mirrors | .print e, _, _, mirrors => e.resolve_renumber around mirrors
  | .declare name none, _, _, mirrors => (mirrors.declare name).define name
  | .declare name (some e), _, _, mirrors => (e.resolve_renumber around (mirrors.declare name)).define name
  | .block body, _, _, mirrors => (Stmt.resolveAll_renumber around body (mirrors.push [])).pop
  | .branch condition thenBranch none, _, _, mirrors =>
    thenBranch.resolve_renumber around (condition.resolve_renumber around mirrors)
  | .branch condition thenBranch (some elseBranch), _, _, mirrors =>
    elseBranch.resolve_renumber around
      (thenBranch.resolve_renumber around (condition.resolve_renumber around mirrors))
  | .loop condition body, _, _, mirrors =>
    body.resolve_renumber around (condition.resolve_renumber around mirrors)
  | .function decl, _, _, mirrors => by
    rw [Stmt.renumber, Stmt.resolve, Stmt.resolve, decl.renumber_name]
    exact decl.resolve_renumber _ ((mirrors.declare decl.name).define decl.name)
  | .ret _ none, _, _, mirrors => mirrors.checkReturn around
  | .ret _ (some e), _, _, mirrors => e.resolve_renumber around (mirrors.checkReturn around)
  | .classDef name none methods, _, _, mirrors =>
    (FunctionDecl.resolveMethods_renumber _ methods (((mirrors.declare name).define name).push _)).pop
  | .classDef name (some superclass) methods, r, r', mirrors => by
    have named := (mirrors.declare name).define name
    have parent : Mirrors f
        (if superclass.name.text = name.text then
          ((r.declare name).define name).report .inheritsFromItself superclass.name
        else (r.declare name).define name)
        (if superclass.name.text = name.text then
          ((r'.declare name).define name).report .inheritsFromItself superclass.name
        else (r'.declare name).define name) := by
      split
      · exact named.report
      · exact named
    exact (FunctionDecl.resolveMethods_renumber _ methods (((parent.use superclass).push _).push _)).pop.pop

theorem Stmt.resolveAll_renumber (around : Surroundings) : (ss : List Stmt) → {r r' : Resolver} →
    Mirrors f r r' → Mirrors f (Stmt.resolveAll around ss r) (Stmt.resolveAll around (Stmt.renumberAll f ss) r')
  | [], _, _, mirrors => mirrors
  | s :: rest, _, _, mirrors => Stmt.resolveAll_renumber around rest (s.resolve_renumber around mirrors)

theorem FunctionDecl.resolve_renumber (around : Surroundings) : (decl : FunctionDecl) → {r r' : Resolver} →
    Mirrors f r r' → Mirrors f (decl.resolve around r) ((decl.renumber f).resolve around r')
  | ⟨_, params, body⟩, _, _, mirrors =>
    (Stmt.resolveAll_renumber around body ((mirrors.push []).declareParams params)).pop

theorem FunctionDecl.resolveMethods_renumber (around : Surroundings) : (decls : List FunctionDecl) →
    {r r' : Resolver} → Mirrors f r r' → Mirrors f (FunctionDecl.resolveMethods around decls r)
      (FunctionDecl.resolveMethods around (FunctionDecl.renumberAll f decls) r')
  | [], _, _, mirrors => mirrors
  | decl :: rest, _, _, mirrors => by
    rw [FunctionDecl.renumberAll, FunctionDecl.resolveMethods, FunctionDecl.resolveMethods, decl.renumber_name]
    exact FunctionDecl.resolveMethods_renumber around rest (decl.resolve_renumber _ mirrors)

end

/-- A renumbered program has the same errors, and under their new identities its nodes the same
distances. -/
theorem resolve_renumber (injective : ∀ {i j}, f i = f j → i = j) (follows : L.Follows f L')
    (ss : List Stmt) : (resolve L' (Stmt.renumberAll f ss)).errors = (resolve L ss).errors ∧
      (resolve L ss).locals.Follows f (resolve L' (Stmt.renumberAll f ss)).locals :=
  have start : Mirrors f ⟨[], [], L⟩ ⟨[], [], L'⟩ := ⟨injective, rfl, rfl, follows⟩
  have mirrors := Stmt.resolveAll_renumber ⟨.topLevel, .outside⟩ ss start
  ⟨mirrors.errors, mirrors.locals⟩

/-! Evaluation. -/

namespace Likeness

/-- A pairing in which the nodes on the right have other identities. -/
structure Pairing.Moves (f : NodeId → NodeId) (p q : Pairing) : Prop where
  ids : p.ids i j → q.ids i (f j)
  left : p.ids i j → q.left[i]? = p.left[i]?
  right : p.ids i j → q.right[f j]? = p.right[j]?
  blames : p.blames n m → q.blames n m
  strict : q.strict → p.strict

variable {p q : Pairing}

private theorem Refers.renumber (moves : p.Moves f q) (weaker : sure' → sure) (refers : Refers p Γ sure i n j m) :
    Refers q Γ sure' i n (f j) m := by
  cases refers with
  | global ids left right =>
    exact .global (moves.ids ids) ((moves.left ids).trans left) ((moves.right ids).trans right)
  | inScope ids left right layer bound =>
    exact .inScope (moves.ids ids) ((moves.left ids).trans left) ((moves.right ids).trans right) layer
      fun sure => bound (weaker sure)

private theorem SameName.renumber (moves : p.Moves f q) (same : SameName p n m) : SameName q n m :=
  ⟨same.text, moves.blames same.blames⟩

theorem Alike.renumber (moves : p.Moves f q) (alike : Alike p inside Γ c c') :
    Alike q inside Γ c (c'.renumber f) := by
  induction alike with
  | literal => exact .literal
  | group _ inner => exact .group inner
  | unary blames _ operand => exact .unary (moves.blames blames) operand
  | binary blames _ _ left right => exact .binary (moves.blames blames) left right
  | logical _ _ left right => exact .logical left right
  | use refers blames => exact .use (refers.renumber moves id) (moves.blames blames)
  | assign refers ordinary blames _ value =>
    exact .assign (refers.renumber moves moves.strict) ordinary (moves.blames blames) value
  | call _ _ blames callee arguments => exact .call callee arguments (moves.blames blames)
  | get _ name object => exact .get object (name.renumber moves)
  | set _ name _ object value => exact .set object (name.renumber moves) value
  | self refers blames => exact .self (refers.renumber moves id) (moves.blames blames)
  | superMethod ids left right outer super inner this name =>
    exact .superMethod (moves.ids ids) ((moves.left ids).trans left) ((moves.right ids).trans right) outer
      super inner this (name.renumber moves)
  | noExprs => exact .noExprs
  | moreExprs _ _ first rest => exact .moreExprs first rest
  | expression _ inner => exact .expression inner
  | print _ inner => exact .print inner
  | declare renamed ordinary => exact .declare renamed ordinary
  | declareWith renamed ordinary _ value => exact .declareWith renamed ordinary value
  | block _ body => exact .block body
  | ifOnly _ _ condition thenPart => exact .ifOnly condition thenPart
  | ifElse _ _ _ condition thenPart elsePart => exact .ifElse condition thenPart elsePart
  | loop _ _ condition body => exact .loop condition body
  | function name _ decl => exact .function (by rwa [FunctionDecl.renumber_name]) decl
  | ret => exact .ret
  | retValue _ value => exact .retValue value
  | plainClass name _ methods => exact .plainClass name methods
  | subclass name parent blames _ methods =>
    exact .subclass name (parent.renumber moves id) (moves.blames blames) methods
  | noStmts => exact .noStmts
  | moreStmts _ _ first rest => exact .moreStmts first rest
  | decl name params ordinary _ body => exact .decl name params ordinary body
  | noFunctions => exact .noFunctions
  | moreFunctions _ _ first rest => exact .moreFunctions first rest

end Likeness
end Lox
