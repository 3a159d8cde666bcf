import Mathlib.Data.List.Forall2
import Lox.Proofs.Tree.Nodes
import Lox.Resolution

/-! Programs written anew: on other lines, and with another name for a local variable. Which uses of
the name mean the variable is read off the distances that resolution has recorded. The new program is
made of the tokens of the old one, each in its place. -/
namespace Lox

/-- New lines, and a new name for the variable `old` of a local scope. -/
structure Respelling where
  locals : Locals
  old : Text
  new : Text
  line : Nat → Nat

/-- Where a piece of code stands: outside of the scope whose variable is renamed, or inside it, so many
scopes further in. -/
abbrev Depth := Option Nat

/-- One scope further in. -/
def Depth.inward (depth : Depth) : Depth := depth.map (· + 1)

namespace Respelling

def spell (w : Respelling) (name : Text) : Text := if name = w.old then w.new else name

/-- A name that is kept. -/
def kept (w : Respelling) (name : Ident) : Ident := ⟨name.text, w.line name.line⟩

/-- The name of a variable or a parameter, in its declaration. -/
def declared (w : Respelling) (depth : Depth) (name : Ident) : Ident :=
  ⟨if depth = some 0 then w.spell name.text else name.text, w.line name.line⟩

/-- The name of a variable where it is used. It is renamed if the scope in which resolution has found
it is the one whose variable is renamed. -/
def used (w : Respelling) (depth : Depth) (ref : Reference) : Reference :=
  ⟨ref.id, if depth.isSome ∧ w.locals[ref.id]? = depth then w.spell ref.name.text else ref.name.text,
    w.line ref.name.line⟩

/-- A name and what may stand in its place. -/
inductive Respells (w : Respelling) (name : Ident) : Ident → Prop where
  | kept : Respells w name ⟨name.text, w.line name.line⟩
  | renamed : Respells w name ⟨w.spell name.text, w.line name.line⟩

theorem Respells.line {w : Respelling} (respells : w.Respells name other) : other.line = w.line name.line := by
  cases respells <;> rfl

theorem respells_used (w : Respelling) (depth : Depth) (ref : Reference) :
    w.Respells ref.name (w.used depth ref).name := by
  unfold used
  split
  · exact .renamed
  · exact .kept

end Respelling

mutual

def Expr.respelled (w : Respelling) (depth : Depth) : Expr → Expr
  | .literal value => .literal value
  | .group inner => .group (inner.respelled w depth)
  | .unary op line operand => .unary op (w.line line) (operand.respelled w depth)
  | .binary op line left right => .binary op (w.line line) (left.respelled w depth) (right.respelled w depth)
  | .logical op left right => .logical op (left.respelled w depth) (right.respelled w depth)
  | .use ref => .use (w.used depth ref)
  | .assign ref value => .assign (w.used depth ref) (value.respelled w depth)
  | .call callee arguments line =>
    .call (callee.respelled w depth) (Expr.respelledAll w depth arguments) (w.line line)
  | .get object name => .get (object.respelled w depth) (w.kept name)
  | .set object name value => .set (object.respelled w depth) (w.kept name) (value.respelled w depth)
  | .self id line => .self id (w.line line)
  | .superMethod id line method => .superMethod id (w.line line) (w.kept method)

def Expr.respelledAll (w : Respelling) (depth : Depth) : List Expr → List Expr
  | [] => []
  | e :: rest => e.respelled w depth :: Expr.respelledAll w depth rest

end

/-- The variables that statements declare in the scope they stand in. -/
def Stmt.vars (ss : List Stmt) : List Text :=
  ss.filterMap fun
    | .declare name _ => some name.text
    | _ => none

/-- Into a scope with the given variables and parameters: either its variable of the given name is
the one that is renamed, or it is just one more scope. -/
inductive Enters (name : Text) (vars : List Text) : Depth → Depth → Prop where
  | pass : Enters name vars depth depth.inward
  | choose (declared : name ∈ vars) : Enters name vars none (some 0)

/-- Statements and functions written anew. In each scope outside of a renamed one there is the choice
to rename its variable. -/
inductive Respelled (w : Respelling) : Depth → Code → Code → Prop where
  | expression : Respelled w depth (.stmt (.expression e)) (.stmt (.expression (e.respelled w depth)))
  | print : Respelled w depth (.stmt (.print e)) (.stmt (.print (e.respelled w depth)))
  | declare : Respelled w depth (.stmt (.declare name value))
      (.stmt (.declare (w.declared depth name) (value.map (·.respelled w depth))))
  | block {inner : Depth} (enters : Enters w.old (Stmt.vars ss) depth inner)
      (body : Respelled w inner (.stmts ss) (.stmts ss')) :
      Respelled w depth (.stmt (.block ss)) (.stmt (.block ss'))
  | ifOnly (thenPart : Respelled w depth (.stmt s) (.stmt s')) :
      Respelled w depth (.stmt (.branch c s none)) (.stmt (.branch (c.respelled w depth) s' none))
  | ifElse (thenPart : Respelled w depth (.stmt s) (.stmt s')) (elsePart : Respelled w depth (.stmt t) (.stmt t')) :
      Respelled w depth (.stmt (.branch c s (some t))) (.stmt (.branch (c.respelled w depth) s' (some t')))
  | loop (body : Respelled w depth (.stmt s) (.stmt s')) :
      Respelled w depth (.stmt (.loop c s)) (.stmt (.loop (c.respelled w depth) s'))
  | function (decl : Respelled w depth (.function d) (.function d')) :
      Respelled w depth (.stmt (.function d)) (.stmt (.function d'))
  | ret : Respelled w depth (.stmt (.ret line value))
      (.stmt (.ret (w.line line) (value.map (·.respelled w depth))))
  | plainClass (methods : Respelled w depth.inward (.functions ds) (.functions ds')) :
      Respelled w depth (.stmt (.classDef name none ds)) (.stmt (.classDef (w.kept name) none ds'))
  | subclass (methods : Respelled w depth.inward.inward (.functions ds) (.functions ds')) :
      Respelled w depth (.stmt (.classDef name (some ref) ds))
        (.stmt (.classDef (w.kept name) (some (w.used depth ref)) ds'))
  | noStmts : Respelled w depth (.stmts []) (.stmts [])
  | moreStmts (first : Respelled w depth (.stmt s) (.stmt s'))
      (rest : Respelled w depth (.stmts ss) (.stmts ss')) :
      Respelled w depth (.stmts (s :: ss)) (.stmts (s' :: ss'))
  | decl {inner : Depth} (enters : Enters w.old (params.map (·.text) ++ Stmt.vars ss) depth inner)
      (body : Respelled w inner (.stmts ss) (.stmts ss')) :
      Respelled w depth (.function ⟨name, params, ss⟩)
        (.function ⟨w.kept name, params.map (w.declared inner), ss'⟩)
  | noFunctions : Respelled w depth (.functions []) (.functions [])
  | moreFunctions (first : Respelled w depth (.function d) (.function d'))
      (rest : Respelled w depth (.functions ds) (.functions ds')) :
      Respelled w depth (.functions (d :: ds)) (.functions (d' :: ds'))

theorem Respelled.functionName (respelled : Respelled w depth (.function d) (.function d')) :
    d'.name.text = d.name.text := by
  cases respelled
  rfl

/-! Nodes keep their identities. -/

mutual

@[simp] theorem Expr.ids_respelled (w : Respelling) (depth : Depth) :
    (e : Expr) → (e.respelled w depth).ids = e.ids
  | .literal _ | .use _ | .self _ _ | .superMethod _ _ _ => rfl
  | .group inner | .unary _ _ inner | .get inner _ => inner.ids_respelled w depth
  | .binary _ _ a b | .logical _ a b => by simp only [Expr.respelled, Expr.ids, a.ids_respelled, b.ids_respelled]
  | .assign ref value => by simp only [Expr.respelled, Expr.ids, value.ids_respelled, Respelling.used]
  | .call callee arguments _ => by
    simp only [Expr.respelled, Expr.ids, callee.ids_respelled, Expr.idsAll_respelledAll]
  | .set object _ value => by simp only [Expr.respelled, Expr.ids, object.ids_respelled, value.ids_respelled]

theorem Expr.idsAll_respelledAll (w : Respelling) (depth : Depth) :
    (es : List Expr) → Expr.idsAll (Expr.respelledAll w depth es) = Expr.idsAll es
  | [] => rfl
  | e :: rest => by
    simp only [Expr.respelledAll, Expr.idsAll, e.ids_respelled, Expr.idsAll_respelledAll w depth rest]

end

theorem Respelled.ids (respelled : Respelled w depth c c') : c'.ids = c.ids := by
  induction respelled with
  | expression | print => exact Expr.ids_respelled w _ _
  | @declare _ _ value | @ret _ _ value =>
    cases value with
    | none => rfl
    | some e => exact Expr.ids_respelled w _ e
  | block _ _ ih | function _ ih | plainClass _ ih | decl _ _ ih => exact ih
  | ifOnly _ ih | loop _ ih =>
    simp only [Code.ids, Stmt.ids, Expr.ids_respelled] at ih ⊢
    rw [ih]
  | ifElse _ _ first second | moreStmts _ _ first second | moreFunctions _ _ first second =>
    simp only [Code.ids, Stmt.ids, Stmt.idsAll, FunctionDecl.idsAll, Expr.ids_respelled] at first second ⊢
    rw [first, second]
  | subclass _ ih => exact congrArg (List.cons _) ih
  | noStmts | noFunctions => rfl

/-! Without a renamed variable only the lines change. -/

namespace Respelling

private theorem kept_same (w : Respelling) (still : w.line = id) (name : Ident) : w.kept name = name := by
  rw [kept, still]
  rfl

private theorem declared_same (w : Respelling) (still : w.line = id) (name : Ident) :
    w.declared none name = name := by
  rw [declared, still]
  rfl

private theorem used_same (w : Respelling) (still : w.line = id) (ref : Reference) : w.used none ref = ref := by
  simp [used, still]

end Respelling

mutual

theorem Expr.respelled_same (w : Respelling) (still : w.line = id) :
    (e : Expr) → e.respelled w none = e
  | .literal _ => rfl
  | .self _ _ => by simp only [Expr.respelled, still, id]
  | .superMethod _ _ _ => by simp only [Expr.respelled, w.kept_same still, still, id]
  | .use ref => by rw [Expr.respelled, w.used_same still]
  | .group inner => by rw [Expr.respelled, inner.respelled_same w still]
  | .unary _ _ inner => by rw [Expr.respelled, inner.respelled_same w still, still, id]
  | .get inner _ => by rw [Expr.respelled, inner.respelled_same w still, w.kept_same still]
  | .binary _ _ a b => by rw [Expr.respelled, a.respelled_same w still, b.respelled_same w still, still, id]
  | .logical _ a b => by rw [Expr.respelled, a.respelled_same w still, b.respelled_same w still]
  | .assign ref value => by rw [Expr.respelled, value.respelled_same w still, w.used_same still]
  | .call callee arguments _ => by
    rw [Expr.respelled, callee.respelled_same w still, Expr.respelledAll_same w still arguments, still, id]
  | .set object _ value => by
    rw [Expr.respelled, object.respelled_same w still, value.respelled_same w still, w.kept_same still]

theorem Expr.respelledAll_same (w : Respelling) (still : w.line = id) :
    (es : List Expr) → Expr.respelledAll w none es = es
  | [] => rfl
  | e :: rest => by rw [Expr.respelledAll, e.respelled_same w still, Expr.respelledAll_same w still rest]

end

private theorem Expr.map_respelled_same (w : Respelling) (still : w.line = id) (value : Option Expr) :
    value.map (·.respelled w none) = value := by
  cases value with
  | none => rfl
  | some e => exact congrArg some (e.respelled_same w still)

mutual

/-- Every program can be put on new lines. If the lines stay, so does the program. -/
theorem Stmt.respell (w : Respelling) : (s : Stmt) →
    ∃ s', Respelled w none (.stmt s) (.stmt s') ∧ (w.line = id → s' = s)
  | .expression e => ⟨_, .expression, fun still => by rw [e.respelled_same w still]⟩
  | .print e => ⟨_, .print, fun still => by rw [e.respelled_same w still]⟩
  | .declare name value => ⟨_, .declare, fun still => by
      rw [w.declared_same still, Expr.map_respelled_same w still]⟩
  | .block body =>
    have ⟨body', respelled, same⟩ := Stmt.respellAll w body
    ⟨_, .block .pass respelled, fun still => by rw [same still]⟩
  | .branch c thenPart none =>
    have ⟨first', respelled, same⟩ := thenPart.respell w
    ⟨_, .ifOnly respelled, fun still => by rw [same still, c.respelled_same w still]⟩
  | .branch c thenPart (some elsePart) =>
    have ⟨first', respelled, same⟩ := thenPart.respell w
    have ⟨second', respelled', same'⟩ := elsePart.respell w
    ⟨_, .ifElse respelled respelled', fun still => by
      rw [same still, same' still, c.respelled_same w still]⟩
  | .loop c body =>
    have ⟨body', respelled, same⟩ := body.respell w
    ⟨_, .loop respelled, fun still => by rw [same still, c.respelled_same w still]⟩
  | .function decl =>
    have ⟨decl', respelled, same⟩ := decl.respell w
    ⟨_, .function respelled, fun still => by rw [same still]⟩
  | .ret line value => ⟨_, .ret, fun still => by rw [Expr.map_respelled_same w still, still, id]⟩
  | .classDef name none methods =>
    have ⟨methods', respelled, same⟩ := FunctionDecl.respellAll w methods
    ⟨_, .plainClass respelled, fun still => by rw [same still, w.kept_same still]⟩
  | .classDef name (some ref) methods =>
    have ⟨methods', respelled, same⟩ := FunctionDecl.respellAll w methods
    ⟨_, .subclass respelled, fun still => by rw [same still, w.kept_same still, w.used_same still]⟩

theorem Stmt.respellAll (w : Respelling) : (ss : List Stmt) →
    ∃ ss', Respelled w none (.stmts ss) (.stmts ss') ∧ (w.line = id → ss' = ss)
  | [] => ⟨[], .noStmts, fun _ => rfl⟩
  | s :: rest =>
    have ⟨s', first, same⟩ := s.respell w
    have ⟨rest', others, same'⟩ := Stmt.respellAll w rest
    ⟨_, .moreStmts first others, fun still => by rw [same still, same' still]⟩

theorem FunctionDecl.respell (w : Respelling) : (decl : FunctionDecl) →
    ∃ decl', Respelled w none (.function decl) (.function decl') ∧ (w.line = id → decl' = decl)
  | ⟨name, params, body⟩ =>
    have ⟨body', respelled, same⟩ := Stmt.respellAll w body
    ⟨_, .decl .pass respelled, fun still => by
      have params_same : params.map (w.declared none) = params :=
        (List.map_congr_left fun param _ => w.declared_same still param).trans (List.map_id params)
      rw [same still, w.kept_same still]
      exact congrArg (FunctionDecl.mk name · body) params_same⟩

theorem FunctionDecl.respellAll (w : Respelling) : (decls : List FunctionDecl) →
    ∃ decls', Respelled w none (.functions decls) (.functions decls') ∧ (w.line = id → decls' = decls)
  | [] => ⟨[], .noFunctions, fun _ => rfl⟩
  | decl :: rest =>
    have ⟨decl', first, same⟩ := decl.respell w
    have ⟨rest', others, same'⟩ := FunctionDecl.respellAll w rest
    ⟨_, .moreFunctions first others, fun still => by rw [same still, same' still]⟩

end

/-- Nothing changes if nothing is renamed and the lines stay. -/
theorem Stmt.respelled_same (w : Respelling) (still : w.line = id) (ss : List Stmt) :
    Respelled w none (.stmts ss) (.stmts ss) := by
  obtain ⟨ss', respelled, same⟩ := Stmt.respellAll w ss
  rwa [same still] at respelled

/-! The tokens of the new program. -/

/-- A token in its new place: only identifiers change their bytes. -/
structure Token.Respelled (w : Respelling) (t t' : Token) : Prop where
  kind : t'.kind = t.kind
  line : t'.line = w.line t.line
  lexeme : t'.lexeme = t.lexeme ∨ t.kind = .identifier ∧ t'.lexeme = w.spell t.lexeme

namespace Respelling

/-- A token that is kept. -/
def token (w : Respelling) (t : Token) : Token := ⟨t.kind, t.lexeme, w.line t.line⟩

private theorem token_respelled (w : Respelling) (t : Token) : t.Respelled w (w.token t) := ⟨rfl, rfl, .inl rfl⟩

private theorem token_kind (w : Respelling) {t : Token} (kind : t.kind = k) : (w.token t).kind = k := kind

/-- An identifier that becomes the given name. -/
theorem ident_respelled (w : Respelling) {t : Token} (named : t.kind = .identifier)
    (name : text = t.lexeme ∨ text = w.spell t.lexeme) :
    ∃ t', t.Respelled w t' ∧ t'.kind = .identifier ∧ t'.ident = ⟨text, w.line t.line⟩ :=
  ⟨⟨.identifier, text, w.line t.line⟩, ⟨named.symm, rfl, name.imp_right fun new => ⟨named, new⟩⟩, rfl, rfl⟩

private theorem declared_respelled (w : Respelling) (depth : Depth) {t : Token} (named : t.kind = .identifier) :
    ∃ t', t.Respelled w t' ∧ t'.kind = .identifier ∧ t'.ident = w.declared depth t.ident := by
  refine w.ident_respelled named ?_
  by_cases top : depth = some 0
  · exact .inr (if_pos top)
  · exact .inl (if_neg top)

private theorem used_respelled (w : Respelling) (depth : Depth) {t : Token} (named : t.kind = .identifier)
    (node : NodeId) :
    ∃ t', t.Respelled w t' ∧ t'.kind = .identifier ∧ (⟨node, t'.ident⟩ : Reference) = w.used depth ⟨node, t.ident⟩ := by
  by_cases bound : depth.isSome ∧ w.locals[node]? = depth
  · obtain ⟨t', respelled, kind, ident⟩ := w.ident_respelled named (.inr rfl)
    refine ⟨t', respelled, kind, ?_⟩
    rw [ident, used, if_pos bound]
    rfl
  · obtain ⟨t', respelled, kind, ident⟩ := w.ident_respelled named (.inl rfl)
    refine ⟨t', respelled, kind, ?_⟩
    rw [ident, used, if_neg bound]
    rfl

end Respelling

namespace Grammar

private theorem Constant.respelled (constant : Constant t v) (w : Respelling) : Constant (w.token t) v := by
  cases constant with
  | trueWord keyword => exact .trueWord keyword
  | falseWord keyword => exact .falseWord keyword
  | nilWord keyword => exact .nilWord keyword
  | value own => exact .value own

inductive Phrase.Respelled (w : Respelling) : Depth → Phrase → Phrase → Prop where
  | expr : Phrase.Respelled w depth (.expr rank e) (.expr rank (e.respelled w depth))
  | optional : Phrase.Respelled w depth (.optional e) (.optional (e.map (·.respelled w depth)))
  | arguments : Phrase.Respelled w depth (.arguments es) (.arguments (Expr.respelledAll w depth es))
  | variableDecl (stmt : Lox.Respelled w depth (.stmt s) (.stmt s')) :
      Phrase.Respelled w depth (.variableDecl s) (.variableDecl s')
  | noClause : Phrase.Respelled w depth (.forClause none) (.forClause none)
  | clause (stmt : Lox.Respelled w depth (.stmt s) (.stmt s')) :
      Phrase.Respelled w depth (.forClause (some s)) (.forClause (some s'))
  | statement (stmt : Lox.Respelled w depth (.stmt s) (.stmt s')) :
      Phrase.Respelled w depth (.statement s isOpen) (.statement s' isOpen)
  | declaration (stmt : Lox.Respelled w depth (.stmt s) (.stmt s')) :
      Phrase.Respelled w depth (.declaration s) (.declaration s')
  | declarations (stmts : Lox.Respelled w depth (.stmts ss) (.stmts ss')) :
      Phrase.Respelled w depth (.declarations ss) (.declarations ss')
  | function (decl : Lox.Respelled w depth (.function d) (.function d')) :
      Phrase.Respelled w depth (.function d) (.function d')
  | methods (decls : Lox.Respelled w depth (.functions ds) (.functions ds')) :
      Phrase.Respelled w depth (.methods ds) (.methods ds')

private theorem repeated_respelled (respelled : Lox.Respelled w depth (.stmt (.forLoop none c step s)) (.stmt t)) :
    ∃ inner s', t = .forLoop none (c.map (·.respelled w depth)) (step.map (·.respelled w inner)) s' ∧
      Lox.Respelled w inner (.stmt s) (.stmt s') := by
  have test : (c.getD (.literal (.bool true))).respelled w depth =
      (c.map (·.respelled w depth)).getD (.literal (.bool true)) := by cases c <;> rfl
  cases step with
  | none =>
    cases respelled with
    | loop body =>
      rw [test]
      exact ⟨_, _, rfl, body⟩
  | some step =>
    cases respelled with
    | loop round =>
      rw [test]
      cases round with
      | block enters body =>
        cases body with
        | moreStmts first rest =>
          cases rest with
          | moreStmts last rest =>
            cases last
            cases rest
            exact ⟨_, _, rfl, first⟩

/-- The parts of a `for` statement are respelled at depths of their own. -/
theorem forLoop_respelled (respelled : Lox.Respelled w depth (.stmt (.forLoop init c step s)) (.stmt t)) :
    ∃ outer init' inner s', t = .forLoop init' (c.map (·.respelled w outer)) (step.map (·.respelled w inner)) s' ∧
      Phrase.Respelled w outer (.forClause init) (.forClause init') ∧
      Lox.Respelled w inner (.stmt s) (.stmt s') := by
  cases init with
  | none =>
    obtain ⟨inner, s', rfl, body⟩ := repeated_respelled respelled
    exact ⟨depth, none, inner, s', rfl, .noClause, body⟩
  | some clause =>
    cases respelled with
    | block enters body =>
      cases body with
      | moreStmts first rest =>
        cases rest with
        | moreStmts repeated rest =>
          cases rest
          obtain ⟨inner, s', rfl, body⟩ := repeated_respelled repeated
          exact ⟨_, some _, inner, s', rfl, .clause first, body⟩

private theorem Parameters.respell (params : Parameters ts ps) (w : Respelling) (depth : Depth) :
    ∃ ts', List.Forall₂ (Token.Respelled w) ts ts' ∧ Parameters ts' (ps.map (w.declared depth)) := by
  induction params with
  | none => exact ⟨[], .nil, .none⟩
  | one named =>
    obtain ⟨t', respelled, kind, ident⟩ := w.declared_respelled depth named
    refine ⟨[t'], .cons respelled .nil, ?_⟩
    rw [List.map_singleton, ← ident]
    exact .one kind
  | @more name comma ts next ps named mark rest ih =>
    obtain ⟨t', respelled, kind, ident⟩ := w.declared_respelled depth named
    obtain ⟨ts', tokens, others⟩ := ih
    refine ⟨t' :: w.token _ :: ts', .cons respelled (.cons (w.token_respelled _) tokens), ?_⟩
    rw [List.map_cons, ← ident]
    exact .more kind mark others

private theorem Rank.join?_respelled {rank : Rank} (operator : rank.join? kind = some node) (w : Respelling)
    (depth : Depth) :
    (node line a b).respelled w depth = node (w.line line) (a.respelled w depth) (b.respelled w depth) := by
  obtain ⟨op, rfl⟩ | ⟨op, rfl⟩ := Rank.join?_node operator <;> rfl

private theorem length_respelledAll (w : Respelling) (depth : Depth) (es : List Expr) :
    (Expr.respelledAll w depth es).length = es.length := by
  induction es with
  | nil => rfl
  | cons e rest ih => exact congrArg (· + 1) ih

/-- A phrase written anew is made of the respelled tokens. -/
theorem Derives.respell (derived : Derives rule phrase ts i j)
    (respelled : Phrase.Respelled w depth phrase phrase') :
    ∃ ts', List.Forall₂ (Token.Respelled w) ts ts' ∧ Derives rule phrase' ts' i j := by
  have keep := w.token_respelled
  have join : ∀ {ts ts' us us'}, List.Forall₂ (Token.Respelled w) ts ts' →
      List.Forall₂ (Token.Respelled w) us us' → List.Forall₂ (Token.Respelled w) (ts ++ us) (ts' ++ us') :=
    fun first second => List.rel_append first second
  induction derived generalizing depth phrase' with
  | literal value =>
    cases respelled
    exact ⟨[_], .cons (keep _) .nil, .literal (value.respelled w)⟩
  | this keyword =>
    cases respelled
    exact ⟨[_], .cons (keep _) .nil, .this (w.token_kind keyword)⟩
  | @use i t named =>
    cases respelled
    obtain ⟨t', token, kind, ref⟩ := w.used_respelled depth named (i + 1)
    rw [Expr.respelled, ← ref]
    exact ⟨[t'], .cons token .nil, .use kind⟩
  | super keyword mark named =>
    cases respelled
    exact ⟨[_, _, _], .cons (keep _) (.cons (keep _) (.cons (keep _) .nil)),
      .super (w.token_kind keyword) (w.token_kind mark) (w.token_kind named)⟩
  | group opening _ closing inner =>
    cases respelled
    obtain ⟨ts', tokens, derived⟩ := inner .expr
    exact ⟨_, .cons (keep _) (join tokens (.cons (keep _) .nil)),
      .group (w.token_kind opening) derived (w.token_kind closing)⟩
  | lift tighter _ inner =>
    cases respelled
    obtain ⟨ts', tokens, derived⟩ := inner .expr
    exact ⟨ts', tokens, .lift tighter derived⟩
  | call _ opening _ few closing callee args =>
    cases respelled
    obtain ⟨ts', tokens, callee⟩ := callee .expr
    obtain ⟨us', tokens', args⟩ := args .arguments
    rw [← length_respelledAll w depth] at few
    exact ⟨_, join tokens (.cons (keep _) (join tokens' (.cons (keep _) .nil))),
      .call callee (w.token_kind opening) args few (w.token_kind closing)⟩
  | get _ mark named object =>
    cases respelled
    obtain ⟨ts', tokens, object⟩ := object .expr
    exact ⟨_, join tokens (.cons (keep _) (.cons (keep _) .nil)),
      .get object (w.token_kind mark) (w.token_kind named)⟩
  | sign operator _ operand =>
    cases respelled
    obtain ⟨ts', tokens, operand⟩ := operand .expr
    exact ⟨_, .cons (keep _) tokens, .sign (t := w.token _) operator operand⟩
  | join operator _ tighter _ left right =>
    cases respelled
    obtain ⟨ts', tokens, left⟩ := left .expr
    obtain ⟨us', tokens', right⟩ := right .expr
    rw [Rank.join?_respelled operator]
    exact ⟨_, join tokens (.cons (keep _) tokens'), .join (t := w.token _) operator left tighter right⟩
  | @assign e ts i j name equal named mark _ value =>
    cases respelled
    obtain ⟨ts', tokens, value⟩ := value .expr
    obtain ⟨t', token, kind, ref⟩ := w.used_respelled depth named (j + 1)
    rw [Expr.respelled, ← ref]
    exact ⟨_, .cons token (.cons (keep _) tokens), .assign kind (w.token_kind mark) value⟩
  | set _ dotted named mark _ object value =>
    cases respelled
    obtain ⟨ts', tokens, object⟩ := object .expr
    obtain ⟨us', tokens', value⟩ := value .expr
    exact ⟨_, join tokens (.cons (keep _) (.cons (keep _) (.cons (keep _) tokens'))),
      .set object (w.token_kind dotted) (w.token_kind named) (w.token_kind mark) value⟩
  | noArguments =>
    cases respelled
    exact ⟨[], .nil, .noArguments⟩
  | oneArgument _ only =>
    cases respelled
    obtain ⟨ts', tokens, only⟩ := only .expr
    exact ⟨ts', tokens, .oneArgument only⟩
  | moreArguments _ mark _ first rest =>
    cases respelled
    obtain ⟨ts', tokens, first⟩ := first .expr
    obtain ⟨us', tokens', rest⟩ := rest .arguments
    exact ⟨_, join tokens (.cons (keep _) tokens'), .moreArguments first (w.token_kind mark) rest⟩
  | absent =>
    cases respelled
    exact ⟨[], .nil, .absent⟩
  | present _ inner =>
    cases respelled
    obtain ⟨ts', tokens, inner⟩ := inner .expr
    exact ⟨ts', tokens, .present inner⟩
  | expression _ mark inner =>
    cases respelled with
    | statement stmt =>
      cases stmt
      obtain ⟨ts', tokens, inner⟩ := inner .expr
      exact ⟨_, join tokens (.cons (keep _) .nil), .expression inner (w.token_kind mark)⟩
  | print keyword _ mark inner =>
    cases respelled with
    | statement stmt =>
      cases stmt
      obtain ⟨ts', tokens, inner⟩ := inner .expr
      exact ⟨_, .cons (keep _) (join tokens (.cons (keep _) .nil)),
        .print (w.token_kind keyword) inner (w.token_kind mark)⟩
  | ret keyword _ mark value =>
    cases respelled with
    | statement stmt =>
      cases stmt
      obtain ⟨ts', tokens, value⟩ := value .optional
      exact ⟨_, .cons (keep _) (join tokens (.cons (keep _) .nil)),
        .ret (w.token_kind keyword) value (w.token_kind mark)⟩
  | block opening _ closing body =>
    cases respelled with
    | statement stmt =>
      cases stmt with
      | block enters inner =>
        obtain ⟨ts', tokens, body⟩ := body (.declarations inner)
        exact ⟨_, .cons (keep _) (join tokens (.cons (keep _) .nil)),
          .block (w.token_kind opening) body (w.token_kind closing)⟩
  | whileLoop keyword opening _ closing _ condition body =>
    cases respelled with
    | statement stmt =>
      cases stmt with
      | loop inner =>
        obtain ⟨ts', tokens, condition⟩ := condition .expr
        obtain ⟨us', tokens', body⟩ := body (.statement inner)
        exact ⟨_, .cons (keep _) (.cons (keep _) (join tokens (.cons (keep _) tokens'))),
          .whileLoop (w.token_kind keyword) (w.token_kind opening) condition (w.token_kind closing) body⟩
  | ifOnly keyword opening _ closing _ condition thenPart =>
    cases respelled with
    | statement stmt =>
      cases stmt with
      | ifOnly inner =>
        obtain ⟨ts', tokens, condition⟩ := condition .expr
        obtain ⟨us', tokens', thenPart⟩ := thenPart (.statement inner)
        exact ⟨_, .cons (keep _) (.cons (keep _) (join tokens (.cons (keep _) tokens'))),
          .ifOnly (w.token_kind keyword) (w.token_kind opening) condition (w.token_kind closing) thenPart⟩
  | ifElse keyword opening _ closing _ attached other _ condition thenPart elsePart =>
    cases respelled with
    | statement stmt =>
      cases stmt with
      | ifElse first second =>
        obtain ⟨ts', tokens, condition⟩ := condition .expr
        obtain ⟨us', tokens', thenPart⟩ := thenPart (.statement first)
        obtain ⟨vs', others, elsePart⟩ := elsePart (.statement second)
        exact ⟨_, .cons (keep _) (.cons (keep _) (join tokens (.cons (keep _)
          (join tokens' (.cons (keep _) others))))),
          .ifElse (w.token_kind keyword) (w.token_kind opening) condition (w.token_kind closing) thenPart
            attached (w.token_kind other) elsePart⟩
  | forLoop keyword opening _ _ mark _ closing _ first condition increment body =>
    cases respelled with
    | statement stmt =>
      obtain ⟨outer, init', inner, s', rfl, clause, round⟩ := forLoop_respelled stmt
      obtain ⟨ts', tokens, first⟩ := first clause
      obtain ⟨us', tokens', condition⟩ := condition (.optional : Phrase.Respelled w outer _ _)
      obtain ⟨vs', others, increment⟩ := increment (.optional : Phrase.Respelled w inner _ _)
      obtain ⟨ws', last, body⟩ := body (.statement round)
      exact ⟨_, .cons (keep _) (.cons (keep _) (join tokens (join tokens' (.cons (keep _)
        (join others (.cons (keep _) last)))))),
        .forLoop (w.token_kind keyword) (w.token_kind opening) first condition (w.token_kind mark) increment
          (w.token_kind closing) body⟩
  | noClause mark =>
    cases respelled
    exact ⟨[_], .cons (keep _) .nil, .noClause (w.token_kind mark)⟩
  | variableClause keyword _ decl =>
    cases respelled with
    | clause stmt =>
      obtain ⟨ts', tokens, decl⟩ := decl (.variableDecl stmt)
      exact ⟨_, .cons (keep _) tokens, .variableClause (w.token_kind keyword) decl⟩
  | expressionClause _ mark inner =>
    cases respelled with
    | clause stmt =>
      cases stmt
      obtain ⟨ts', tokens, inner⟩ := inner .expr
      exact ⟨_, join tokens (.cons (keep _) .nil), .expressionClause inner (w.token_kind mark)⟩
  | bareVariable named mark =>
    cases respelled with
    | variableDecl stmt =>
      cases stmt
      obtain ⟨t', token, kind, ident⟩ := w.declared_respelled depth named
      rw [← ident]
      exact ⟨_, .cons token (.cons (keep _) .nil), .bareVariable kind (w.token_kind mark)⟩
  | initializedVariable named sign _ mark value =>
    cases respelled with
    | variableDecl stmt =>
      cases stmt
      obtain ⟨t', token, kind, ident⟩ := w.declared_respelled depth named
      obtain ⟨ts', tokens, value⟩ := value .expr
      rw [← ident]
      exact ⟨_, .cons token (.cons (keep _) (join tokens (.cons (keep _) .nil))),
        .initializedVariable kind (w.token_kind sign) value (w.token_kind mark)⟩
  | variableDeclaration keyword _ decl =>
    cases respelled with
    | declaration stmt =>
      obtain ⟨ts', tokens, decl⟩ := decl (.variableDecl stmt)
      exact ⟨_, .cons (keep _) tokens, .variableDeclaration (w.token_kind keyword) decl⟩
  | functionDeclaration keyword _ decl =>
    cases respelled with
    | declaration stmt =>
      cases stmt with
      | function inner =>
        obtain ⟨ts', tokens, decl⟩ := decl (.function inner)
        exact ⟨_, .cons (keep _) tokens, .functionDeclaration (w.token_kind keyword) decl⟩
  | plainClass keyword named opening _ closing body =>
    cases respelled with
    | declaration stmt =>
      cases stmt with
      | plainClass inner =>
        obtain ⟨ts', tokens, body⟩ := body (.methods inner)
        exact ⟨_, .cons (keep _) (.cons (keep _) (.cons (keep _) (join tokens (.cons (keep _) .nil)))),
          .plainClass (w.token_kind keyword) (w.token_kind named) (w.token_kind opening) body
            (w.token_kind closing)⟩
  | subclass keyword named mark parent opening _ closing body =>
    cases respelled with
    | declaration stmt =>
      cases stmt with
      | subclass inner =>
        obtain ⟨ts', tokens, body⟩ := body (.methods inner)
        obtain ⟨t', token, kind, ref⟩ := w.used_respelled depth parent _
        rw [← ref]
        exact ⟨_, .cons (keep _) (.cons (keep _) (.cons (keep _) (.cons token (.cons (keep _)
          (join tokens (.cons (keep _) .nil)))))),
          .subclass (w.token_kind keyword) (w.token_kind named) (w.token_kind mark) kind
            (w.token_kind opening) body (w.token_kind closing)⟩
  | statement _ inner =>
    cases respelled with
    | declaration stmt =>
      obtain ⟨ts', tokens, inner⟩ := inner (.statement stmt)
      exact ⟨ts', tokens, .statement inner⟩
  | function named opening params few closing start _ stop body =>
    cases respelled with
    | function decl =>
      cases decl with
      | decl enters inner =>
        obtain ⟨us', tokens', body⟩ := body (.declarations inner)
        obtain ⟨ts', tokens, params⟩ := params.respell w _
        exact ⟨_, .cons (keep _) (.cons (keep _) (join tokens (.cons (keep _) (.cons (keep _)
          (join tokens' (.cons (keep _) .nil)))))),
          .function (w.token_kind named) (w.token_kind opening) params (Nat.le_trans (Nat.le_of_eq (List.length_map _)) few)
            (w.token_kind closing) (w.token_kind start) body (w.token_kind stop)⟩
  | noMethods =>
    cases respelled with
    | methods decls =>
      cases decls
      exact ⟨[], .nil, .noMethods⟩
  | moreMethods _ _ first rest =>
    cases respelled with
    | methods decls =>
      cases decls with
      | moreFunctions one others =>
        obtain ⟨ts', tokens, first⟩ := first (.function one)
        obtain ⟨us', tokens', rest⟩ := rest (.methods others)
        exact ⟨_, join tokens tokens', .moreMethods first rest⟩
  | noDeclarations =>
    cases respelled with
    | declarations stmts =>
      cases stmts
      exact ⟨[], .nil, .noDeclarations⟩
  | moreDeclarations _ _ first rest =>
    cases respelled with
    | declarations stmts =>
      cases stmts with
      | moreStmts one others =>
        obtain ⟨ts', tokens, first⟩ := first (.declaration one)
        obtain ⟨us', tokens', rest⟩ := rest (.declarations others)
        exact ⟨_, join tokens tokens', .moreDeclarations first rest⟩

end Grammar
end Lox
