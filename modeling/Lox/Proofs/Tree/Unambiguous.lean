import Lox.Proofs.Tree.Printed
import Lox.Proofs.Tree.Soundness

/-! The printed tree of a program tells the program, but for the identities of its nodes and the lines of its tokens.
Every tree is printed as a tree of words, from which it can be read back; and the words of a program that was read
without complaint are told from their texts. -/
namespace Lox

/-! Trees without identities and lines. -/

def Ident.bare (name : Ident) : Ident := ⟨name.text, 0⟩

def Reference.bare (ref : Reference) : Reference := ⟨0, ref.name.bare⟩

mutual

def Expr.bare : Expr → Expr
  | .literal value => .literal value
  | .group inner => .group inner.bare
  | .unary op _ operand => .unary op 0 operand.bare
  | .binary op _ left right => .binary op 0 left.bare right.bare
  | .logical op left right => .logical op left.bare right.bare
  | .use ref => .use ref.bare
  | .assign ref value => .assign ref.bare value.bare
  | .call callee arguments _ => .call callee.bare (Expr.bareAll arguments) 0
  | .get object name => .get object.bare name.bare
  | .set object name value => .set object.bare name.bare value.bare
  | .self _ _ => .self 0 0
  | .superMethod _ _ method => .superMethod 0 0 method.bare

def Expr.bareAll : List Expr → List Expr
  | [] => []
  | e :: rest => e.bare :: Expr.bareAll rest

end

mutual

def Stmt.bare : Stmt → Stmt
  | .expression e => .expression e.bare
  | .print e => .print e.bare
  | .declare name value => .declare name.bare (value.map Expr.bare)
  | .block body => .block (Stmt.bareAll body)
  | .branch condition thenBranch none => .branch condition.bare thenBranch.bare none
  | .branch condition thenBranch (some elseBranch) =>
    .branch condition.bare thenBranch.bare (some elseBranch.bare)
  | .loop condition body => .loop condition.bare body.bare
  | .function decl => .function decl.bare
  | .ret _ value => .ret 0 (value.map Expr.bare)
  | .classDef name superclass methods =>
    .classDef name.bare (superclass.map Reference.bare) (FunctionDecl.bareAll methods)

def Stmt.bareAll : List Stmt → List Stmt
  | [] => []
  | s :: rest => s.bare :: Stmt.bareAll rest

def FunctionDecl.bare : FunctionDecl → FunctionDecl
  | ⟨name, params, body⟩ => ⟨name.bare, params.map Ident.bare, Stmt.bareAll body⟩

def FunctionDecl.bareAll : List FunctionDecl → List FunctionDecl
  | [] => []
  | decl :: rest => decl.bare :: FunctionDecl.bareAll rest

end

/-! Trees as they are printed. -/

def Ident.printed (name : Ident) : Printed := .word (.name name.text)

mutual

def Expr.printed : Expr → Printed
  | .literal value => .word (.literal value)
  | .group inner => .node .group [inner.printed]
  | .unary op _ operand => .node (.unary op) [operand.printed]
  | .binary op _ left right => .node (.binary op) [left.printed, right.printed]
  | .logical op left right => .node (.logical op) [left.printed, right.printed]
  | .use ref => ref.name.printed
  | .assign ref value => .node .assign [ref.name.printed, value.printed]
  | .call callee arguments _ => .node .call (callee.printed :: Expr.printedAll arguments)
  | .get object name => .node .get [object.printed, name.printed]
  | .set object name value => .node .assign [.node .get [object.printed, name.printed], value.printed]
  | .self _ _ => .word .this
  | .superMethod _ _ method => .node .super [method.printed]

def Expr.printedAll : List Expr → List Printed
  | [] => []
  | e :: rest => e.printed :: Expr.printedAll rest

end

mutual

def Stmt.printed : Stmt → Printed
  | .expression e => e.printed
  | .print e => .node .print [e.printed]
  | .declare name none => .node .declare [name.printed]
  | .declare name (some e) => .node .declare [name.printed, e.printed]
  | .block body => .node .block (Stmt.printedAll body)
  | .branch condition thenBranch none => .node .branch [condition.printed, thenBranch.printed]
  | .branch condition thenBranch (some elseBranch) =>
    .node .branch [condition.printed, thenBranch.printed, elseBranch.printed]
  | .loop condition body => .node .loop [condition.printed, body.printed]
  | .function decl => decl.printed
  | .ret _ none => .node .ret []
  | .ret _ (some e) => .node .ret [e.printed]
  | .classDef name none methods => .node .classDef (name.printed :: FunctionDecl.printedAll methods)
  | .classDef name (some superclass) methods =>
    .node .classDef (name.printed :: .word .below :: superclass.name.printed :: FunctionDecl.printedAll methods)

def Stmt.printedAll : List Stmt → List Printed
  | [] => []
  | s :: rest => s.printed :: Stmt.printedAll rest

def FunctionDecl.printed : FunctionDecl → Printed
  | ⟨name, params, body⟩ => .function name.text (params.map (·.text)) (Stmt.printedAll body)

def FunctionDecl.printedAll : List FunctionDecl → List Printed
  | [] => []
  | decl :: rest => decl.printed :: FunctionDecl.printedAll rest

end

mutual

theorem Expr.text_printed (e : Expr) : e.printed.text = e.text := by
  cases e with
  | literal | use | self | superMethod => rfl
  | group inner | unary _ _ inner | assign _ inner | get inner =>
    rw [Expr.text, ← inner.text_printed]
    rfl
  | binary _ _ left right | logical _ left right | set left _ right =>
    rw [Expr.text, ← left.text_printed, ← right.text_printed]
    rfl
  | call callee arguments =>
    rw [Expr.text, ← callee.text_printed, ← Expr.texts_printed arguments]
    rfl

theorem Expr.texts_printed (es : List Expr) : Printed.texts (Expr.printedAll es) = Expr.texts es := by
  cases es with
  | nil => rfl
  | cons e rest =>
    rw [Expr.texts, ← e.text_printed, ← Expr.texts_printed rest]
    rfl

end

mutual

theorem Stmt.text_printed (s : Stmt) : s.printed.text = s.text := by
  cases s with
  | expression e => exact e.text_printed
  | print e =>
    rw [Stmt.text, ← e.text_printed]
    rfl
  | declare name value =>
    cases value with
    | none => rfl
    | some e =>
      rw [Stmt.text, ← e.text_printed]
      rfl
  | block body =>
    rw [Stmt.text, ← Stmt.texts_printed body]
    rfl
  | branch condition thenBranch elseBranch =>
    cases elseBranch with
    | none =>
      rw [Stmt.text, ← condition.text_printed, ← thenBranch.text_printed]
      rfl
    | some elseBranch =>
      rw [Stmt.text, ← condition.text_printed, ← thenBranch.text_printed, ← elseBranch.text_printed]
      rfl
  | loop condition body =>
    rw [Stmt.text, ← condition.text_printed, ← body.text_printed]
    rfl
  | function decl => exact decl.text_printed
  | ret line value =>
    cases value with
    | none => rfl
    | some e =>
      rw [Stmt.text, ← e.text_printed]
      rfl
  | classDef name superclass methods =>
    cases superclass with
    | none | some =>
      rw [Stmt.text, ← FunctionDecl.texts_printed methods]
      rfl

theorem Stmt.texts_printed (ss : List Stmt) : Printed.texts (Stmt.printedAll ss) = Stmt.texts ss := by
  cases ss with
  | nil => rfl
  | cons s rest =>
    rw [Stmt.texts, ← s.text_printed, ← Stmt.texts_printed rest]
    rfl

theorem FunctionDecl.text_printed (decl : FunctionDecl) : decl.printed.text = decl.text := by
  obtain ⟨name, params, body⟩ := decl
  rw [FunctionDecl.text, ← Stmt.texts_printed body]
  rfl

theorem FunctionDecl.texts_printed (decls : List FunctionDecl) :
    Printed.texts (FunctionDecl.printedAll decls) = FunctionDecl.texts decls := by
  cases decls with
  | nil => rfl
  | cons decl rest =>
    rw [FunctionDecl.texts, ← decl.text_printed, ← FunctionDecl.texts_printed rest]
    rfl

end

/-! Printed trees read back. -/

namespace Printed

mutual

def expr? : Printed → Option Expr
  | .word (.literal value) => some (.literal value)
  | .word (.name x) => some (.use ⟨0, x, 0⟩)
  | .word .this => some (.self 0 0)
  | .node .group [e] => e.expr?.map .group
  | .node (.unary op) [e] => e.expr?.map (.unary op 0)
  | .node (.binary op) [a, b] => do return .binary op 0 (← a.expr?) (← b.expr?)
  | .node (.logical op) [a, b] => do return .logical op (← a.expr?) (← b.expr?)
  | .node .assign [.word (.name x), e] => e.expr?.map (.assign ⟨0, x, 0⟩)
  | .node .assign [.node .get [o, .word (.name x)], e] => do return .set (← o.expr?) ⟨x, 0⟩ (← e.expr?)
  | .node .call (f :: es) => do return .call (← f.expr?) (← exprs? es) 0
  | .node .get [o, .word (.name x)] => o.expr?.map (.get · ⟨x, 0⟩)
  | .node .super [.word (.name x)] => some (.superMethod 0 0 ⟨x, 0⟩)
  | _ => none

def exprs? : List Printed → Option (List Expr)
  | [] => some []
  | p :: rest => do return (← p.expr?) :: (← exprs? rest)

end

mutual

/-- What has no head of a statement is an expression. -/
def stmt? : Printed → Option Stmt
  | .node .print [e] => e.expr?.map .print
  | .node .declare [.word (.name x)] => some (.declare ⟨x, 0⟩ none)
  | .node .declare [.word (.name x), e] => e.expr?.map (.declare ⟨x, 0⟩ ∘ some)
  | .node .block body => (stmts? body).map .block
  | .node .branch [c, s] => do return .branch (← c.expr?) (← s.stmt?) none
  | .node .branch [c, s, s'] => do return .branch (← c.expr?) (← s.stmt?) (some (← s'.stmt?))
  | .node .loop [c, s] => do return .loop (← c.expr?) (← s.stmt?)
  | .function name params body => (stmts? body).map (.function ⟨⟨name, 0⟩, params.map (⟨·, 0⟩), ·⟩)
  | .node .ret [] => some (.ret 0 none)
  | .node .ret [e] => e.expr?.map (.ret 0 ∘ some)
  | .node .classDef (.word (.name x) :: .word .below :: .word (.name y) :: methods) =>
    (functions? methods).map (.classDef ⟨x, 0⟩ (some ⟨0, y, 0⟩))
  | .node .classDef (.word (.name x) :: methods) => (functions? methods).map (.classDef ⟨x, 0⟩ none)
  | p => p.expr?.map .expression

def stmts? : List Printed → Option (List Stmt)
  | [] => some []
  | p :: rest => do return (← p.stmt?) :: (← stmts? rest)

def functions? : List Printed → Option (List FunctionDecl)
  | [] => some []
  | .function name params body :: rest => do
    return ⟨⟨name, 0⟩, params.map (⟨·, 0⟩), ← stmts? body⟩ :: (← functions? rest)
  | _ => none

end

end Printed

mutual

theorem Expr.expr?_printed (e : Expr) : e.printed.expr? = some e.bare := by
  cases e with
  | literal | use | self | superMethod => rfl
  | group inner | unary _ _ inner | assign _ inner | get inner =>
    simp only [Expr.printed, Ident.printed, Printed.expr?, inner.expr?_printed]
    rfl
  | binary _ _ left right | logical _ left right | set left _ right =>
    simp only [Expr.printed, Ident.printed, Printed.expr?, left.expr?_printed, right.expr?_printed]
    rfl
  | call callee arguments =>
    simp only [Expr.printed, Printed.expr?, callee.expr?_printed, Expr.exprs?_printed arguments]
    rfl

theorem Expr.exprs?_printed (es : List Expr) : Printed.exprs? (Expr.printedAll es) = some (Expr.bareAll es) := by
  cases es with
  | nil => rfl
  | cons e rest =>
    simp only [Expr.printedAll, Printed.exprs?, e.expr?_printed, Expr.exprs?_printed rest]
    rfl

end

private theorem Expr.stmt?_printed (e : Expr) : e.printed.stmt? = some (.expression e.bare) := by
  -- no expression has the head of a statement
  have falls : e.printed.stmt? = e.printed.expr?.map .expression := by cases e <;> rfl
  rw [falls, e.expr?_printed]
  rfl

mutual

theorem Stmt.stmt?_printed (s : Stmt) : s.printed.stmt? = some s.bare := by
  cases s with
  | expression e => exact e.stmt?_printed
  | print e =>
    simp only [Stmt.printed, Printed.stmt?, e.expr?_printed]
    rfl
  | declare name value =>
    cases value with
    | none => rfl
    | some e =>
      simp only [Stmt.printed, Ident.printed, Printed.stmt?, e.expr?_printed]
      rfl
  | block body =>
    simp only [Stmt.printed, Printed.stmt?, Stmt.stmts?_printed body]
    rfl
  | branch condition thenBranch elseBranch =>
    cases elseBranch with
    | none =>
      simp only [Stmt.printed, Printed.stmt?, condition.expr?_printed, thenBranch.stmt?_printed]
      rfl
    | some elseBranch =>
      simp only [Stmt.printed, Printed.stmt?, condition.expr?_printed, thenBranch.stmt?_printed,
        elseBranch.stmt?_printed]
      rfl
  | loop condition body =>
    simp only [Stmt.printed, Printed.stmt?, condition.expr?_printed, body.stmt?_printed]
    rfl
  | function decl =>
    obtain ⟨name, params, body⟩ := decl
    simp only [Stmt.printed, FunctionDecl.printed, Printed.stmt?, Stmt.stmts?_printed body, List.map_map]
    rfl
  | ret line value =>
    cases value with
    | none => rfl
    | some e =>
      simp only [Stmt.printed, Printed.stmt?, e.expr?_printed]
      rfl
  | classDef name superclass methods =>
    cases superclass with
    | none =>
      -- the first method is no sign of a superclass
      have falls : (Stmt.classDef name none methods).printed.stmt? =
          (Printed.functions? (FunctionDecl.printedAll methods)).map (.classDef name.bare none) := by
        cases methods with
        | nil => rfl
        | cons decl rest =>
          obtain ⟨_, _, _⟩ := decl
          rfl
      rw [falls, FunctionDecl.functions?_printed methods]
      rfl
    | some superclass =>
      simp only [Stmt.printed, Ident.printed, Printed.stmt?, FunctionDecl.functions?_printed methods]
      rfl

theorem Stmt.stmts?_printed (ss : List Stmt) : Printed.stmts? (Stmt.printedAll ss) = some (Stmt.bareAll ss) := by
  cases ss with
  | nil => rfl
  | cons s rest =>
    simp only [Stmt.printedAll, Printed.stmts?, s.stmt?_printed, Stmt.stmts?_printed rest]
    rfl

theorem FunctionDecl.functions?_printed (decls : List FunctionDecl) :
    Printed.functions? (FunctionDecl.printedAll decls) = some (FunctionDecl.bareAll decls) := by
  cases decls with
  | nil => rfl
  | cons decl rest =>
    obtain ⟨name, params, body⟩ := decl
    simp only [FunctionDecl.printedAll, FunctionDecl.printed, Printed.functions?, Stmt.stmts?_printed body,
      FunctionDecl.functions?_printed rest, List.map_map]
    rfl

end

/-! Nothing else is lost in a bare tree: it is printed like the tree it was made of. -/

mutual

theorem Expr.printed_bare (e : Expr) : e.bare.printed = e.printed := by
  cases e with
  | literal | use | self | superMethod => rfl
  | group inner | unary _ _ inner | assign _ inner | get inner =>
    rw [Expr.printed, ← inner.printed_bare]
    rfl
  | binary _ _ left right | logical _ left right | set left _ right =>
    rw [Expr.printed, ← left.printed_bare, ← right.printed_bare]
    rfl
  | call callee arguments =>
    rw [Expr.printed, ← callee.printed_bare, ← Expr.printedAll_bare arguments]
    rfl

theorem Expr.printedAll_bare (es : List Expr) : Expr.printedAll (Expr.bareAll es) = Expr.printedAll es := by
  cases es with
  | nil => rfl
  | cons e rest =>
    rw [Expr.printedAll, ← e.printed_bare, ← Expr.printedAll_bare rest]
    rfl

end

mutual

theorem Stmt.printed_bare (s : Stmt) : s.bare.printed = s.printed := by
  cases s with
  | expression e => exact e.printed_bare
  | print e =>
    rw [Stmt.printed, ← e.printed_bare]
    rfl
  | declare name value | ret line value =>
    cases value with
    | none => rfl
    | some e =>
      rw [Stmt.printed, ← e.printed_bare]
      rfl
  | block body =>
    rw [Stmt.printed, ← Stmt.printedAll_bare body]
    rfl
  | branch condition thenBranch elseBranch =>
    cases elseBranch with
    | none =>
      rw [Stmt.printed, ← condition.printed_bare, ← thenBranch.printed_bare]
      rfl
    | some elseBranch =>
      rw [Stmt.printed, ← condition.printed_bare, ← thenBranch.printed_bare, ← elseBranch.printed_bare]
      rfl
  | loop condition body =>
    rw [Stmt.printed, ← condition.printed_bare, ← body.printed_bare]
    rfl
  | function decl => exact decl.printed_bare
  | classDef name superclass methods =>
    cases superclass with
    | none | some =>
      rw [Stmt.printed, ← FunctionDecl.printedAll_bare methods]
      rfl

theorem Stmt.printedAll_bare (ss : List Stmt) : Stmt.printedAll (Stmt.bareAll ss) = Stmt.printedAll ss := by
  cases ss with
  | nil => rfl
  | cons s rest =>
    rw [Stmt.printedAll, ← s.printed_bare, ← Stmt.printedAll_bare rest]
    rfl

theorem FunctionDecl.printed_bare (decl : FunctionDecl) : decl.bare.printed = decl.printed := by
  obtain ⟨name, params, body⟩ := decl
  simp only [FunctionDecl.bare, FunctionDecl.printed, Stmt.printedAll_bare body, List.map_map]
  rfl

theorem FunctionDecl.printedAll_bare (decls : List FunctionDecl) :
    FunctionDecl.printedAll (FunctionDecl.bareAll decls) = FunctionDecl.printedAll decls := by
  cases decls with
  | nil => rfl
  | cons decl rest =>
    rw [FunctionDecl.printedAll, ← decl.printed_bare, ← FunctionDecl.printedAll_bare rest]
    rfl

end

/-! The words of a program. -/

/-- Names and constants that are told from their texts. -/
structure Token.Legible (numbers : List Float) (t : Token) : Prop where
  named : t.kind = .identifier → Text.isIdentifier t.lexeme = true
  constant : ∀ value, t.literal? = some value → (Word.literal value).Proper numbers

private theorem Token.Legible.ident {t : Token} (legible : t.Legible numbers) (named : t.kind = .identifier) :
    t.ident.printed.Proper numbers := .word (legible.named named)

namespace Grammar

open Printed (Proper)

/-- The printed trees of a phrase are made of words that are told from their texts. -/
def Phrase.Legible (numbers : List Float) : Phrase → Prop
  | .expr _ e => Proper numbers e.printed
  | .optional e => ∀ inner ∈ e, Proper numbers inner.printed
  | .arguments es => ∀ p ∈ Expr.printedAll es, Proper numbers p
  | .variableDecl s | .statement s _ | .declaration s => Proper numbers s.printed
  | .forClause first => ∀ s ∈ first, Proper numbers s.printed
  | .declarations ss => ∀ p ∈ Stmt.printedAll ss, Proper numbers p
  | .function decl => Proper numbers decl.printed
  | .methods decls => ∀ p ∈ FunctionDecl.printedAll decls, Proper numbers p

private theorem Constant.legible {t : Token} (constant : Constant t v) (legible : t.Legible numbers) :
    (Word.literal v).Proper numbers := by
  cases constant with
  | trueWord | falseWord | nilWord => trivial
  | value own => exact legible.constant _ own

private theorem Rank.join?_legible {rank : Rank} (operator : rank.join? kind = some node)
    (left : Proper numbers a.printed)
    (right : Proper numbers b.printed) : Proper numbers (node line a b).printed := by
  obtain ⟨op, rfl⟩ | ⟨op, rfl⟩ := Rank.join?_node operator
  · exact .two (.free rfl) left right
  · exact .two (.binary op) left right

private theorem Parameters.legible (params : Parameters ts ps) (legible : ∀ t ∈ ts, t.Legible numbers) :
    ∀ name ∈ ps.map (·.text), Text.isIdentifier name = true := by
  induction params with
  | none => exact List.forall_mem_nil _
  | one named => exact List.forall_mem_singleton.2 ((legible _ List.mem_cons_self).named named)
  | more named mark rest ih =>
    obtain ⟨first, -, later⟩ : _ ∧ _ ∧ _ := by simpa only [List.forall_mem_cons] using legible
    exact List.forall_mem_cons.2 ⟨first.named named, ih later⟩

private theorem forLoop_legible (first : (Phrase.forClause init).Legible numbers)
    (condition : (Phrase.optional c).Legible numbers) (increment : (Phrase.optional step).Legible numbers)
    (body : (Phrase.statement s isOpen).Legible numbers) :
    (Phrase.statement (.forLoop init c step s) isOpen).Legible numbers := by
  have test : Proper numbers (c.getD (.literal (.bool true))).printed := by
    cases c with
    | none => exact .word trivial
    | some c => exact condition c rfl
  have repeated : ∀ round : Stmt, Proper numbers round.printed →
      Proper numbers (Stmt.loop (c.getD (.literal (.bool true))) round).printed :=
    fun _ round => .two (.free rfl) test round
  cases step with
  | none =>
    cases init with
    | none => exact repeated s body
    | some clause => exact .two (.free rfl) (first clause rfl) (repeated s body)
  | some e =>
    have round : Proper numbers (Stmt.block [s, .expression e]).printed := .two (.free rfl) body (increment e rfl)
    cases init with
    | none => exact repeated _ round
    | some clause => exact .two (.free rfl) (first clause rfl) (repeated _ round)

/-- The words of a phrase are those of its tokens. -/
theorem Derives.legible (derived : Derives rule phrase ts i j) (legible : ∀ t ∈ ts, t.Legible numbers) :
    phrase.Legible numbers := by
  induction derived with try simp only [List.forall_mem_cons, List.forall_mem_append] at legible
  | literal value => exact .word (value.legible legible.1)
  | this => exact .word trivial
  | use named => exact legible.1.ident named
  | super _ _ named => exact .one (.free rfl) (legible.2.2.1.ident named)
  | group _ _ _ inner => exact .one (.free rfl) (inner legible.2.1)
  | lift _ _ inner => exact inner legible
  | call _ _ _ _ _ callee args => exact .node (.free rfl) (List.forall_mem_cons.2 ⟨callee legible.1, args legible.2.2.1⟩)
  | get _ _ named object => exact .two (.free rfl) (object legible.1) (legible.2.2.1.ident named)
  | sign _ _ operand => exact .one (.unary _) (operand legible.2)
  | join operator _ _ _ left right => exact Rank.join?_legible operator (left legible.1) (right legible.2.2)
  | assign named _ _ value => exact .two (.free rfl) (legible.1.ident named) (value legible.2.2)
  | set _ _ named _ _ object value =>
    have target : Proper numbers (.node .get [_, _]) := .two (.free rfl) (object legible.1) (legible.2.2.1.ident named)
    exact .two (.free rfl) target (value legible.2.2.2.2)
  | noArguments | noMethods | noDeclarations => exact List.forall_mem_nil _
  | absent | noClause =>
    intro _ member
    cases member
  | oneArgument _ only => exact List.forall_mem_singleton.2 (only legible)
  | moreArguments _ _ _ first rest => exact List.forall_mem_cons.2 ⟨first legible.1, rest legible.2.2⟩
  | present _ inner =>
    rintro _ ⟨⟩
    exact inner legible
  | expression _ _ inner => exact inner legible.1
  | print _ _ _ inner => exact .one (.free rfl) (inner legible.2.1)
  | @ret e _ _ _ _ _ _ _ _ value =>
    cases e with
    | none => exact .node (.free rfl) (List.forall_mem_nil _)
    | some e => exact .one (.free rfl) (value legible.2.1 e rfl)
  | block _ _ _ body => exact .node (.free rfl) (body legible.2.1)
  | whileLoop _ _ _ _ _ condition body => exact .two (.free rfl) (condition legible.2.2.1) (body legible.2.2.2.2)
  | ifOnly _ _ _ _ _ condition thenPart => exact .two (.free rfl) (condition legible.2.2.1) (thenPart legible.2.2.2.2)
  | ifElse _ _ _ _ _ _ _ _ condition thenPart elsePart =>
    exact .three (.free rfl) (condition legible.2.2.1) (thenPart legible.2.2.2.2.1) (elsePart legible.2.2.2.2.2.2)
  | forLoop _ _ _ _ _ _ _ _ first condition increment body =>
    exact forLoop_legible (first legible.2.2.1) (condition legible.2.2.2.1) (increment legible.2.2.2.2.2.1)
      (body legible.2.2.2.2.2.2.2)
  | variableClause _ _ decl =>
    rintro _ ⟨⟩
    exact decl legible.2
  | expressionClause _ _ inner =>
    rintro _ ⟨⟩
    exact inner legible.1
  | bareVariable named => exact .one (.free rfl) (legible.1.ident named)
  | initializedVariable named _ _ _ value => exact .two (.free rfl) (legible.1.ident named) (value legible.2.2.1)
  | variableDeclaration _ _ decl => exact decl legible.2
  | functionDeclaration _ _ decl => exact decl legible.2
  | plainClass _ named _ _ _ body =>
    exact .node (.free rfl) (List.forall_mem_cons.2 ⟨legible.2.1.ident named, body legible.2.2.2.1⟩)
  | subclass _ named _ parent _ _ _ body =>
    have above := List.forall_mem_cons.2 ⟨legible.2.2.2.1.ident parent, body legible.2.2.2.2.2.1⟩
    have sign : Proper numbers (.word .below) := .word trivial
    exact .node (.free rfl) (List.forall_mem_cons.2 ⟨legible.2.1.ident named, List.forall_mem_cons.2 ⟨sign, above⟩⟩)
  | statement _ inner => exact inner legible
  | function named _ params _ _ _ _ _ body =>
    exact .function (legible.1.named named) (params.legible legible.2.2.1) (body legible.2.2.2.2.2.1)
  | moreMethods _ _ first rest | moreDeclarations _ _ first rest =>
    exact List.forall_mem_cons.2 ⟨first legible.1, rest legible.2⟩

end Grammar

/-- The number that a token writes. -/
def Token.number? (t : Token) : Option Float :=
  match t.literal? with
  | some (.number x) => some x
  | _ => none

/-- The numbers of a program. -/
def Scan.numbers (scan : Scan) : List Float := scan.tokens.filterMap Token.number?

private theorem Scan.isNaN_numbers (scan : Scan) : ∀ x ∈ scan.numbers, x.isNaN = false := by
  intro x among
  obtain ⟨⟨kind, lexeme, line⟩, -, written⟩ := List.mem_filterMap.1 among
  cases kind <;> cases written
  exact Number.isNaN_toFloat _

/-- Quotes stand around the string of a token, and nowhere in it. -/
theorem Chunk.Spells.quote_notMem (spells : Spells (.lexeme .string) t) : quote ∉ (t.drop 1).dropLast := by
  have marks : ∀ entry ∈ TokenKind.marks, entry.2 ≠ .string := by decide
  have keywords : ∀ entry ∈ TokenKind.keywords, entry.2 ≠ .string := by decide
  generalize kind : ChunkKind.lexeme .string = k at spells
  cases spells with
  | string inside =>
    rw [List.drop_one, List.tail_cons, List.dropLast_concat]
    exact fun among => inside _ among rfl
  | mark listed =>
    cases kind
    exact absurd rfl (marks _ listed)
  | keyword listed =>
    cases kind
    exact absurd rfl (keywords _ listed)
  | _ => cases kind

/-- The words of a program are told from their texts, if its numbers are. -/
theorem scan_legible (source : Text) (within : ∀ x ∈ (scan source).numbers, x ∈ numbers) :
    ∀ t ∈ (scan source).tokens, t.Legible numbers := by
  intro t among
  refine ⟨scan_identifiers source t among, fun value written => ?_⟩
  have spells := scan_spells source t among
  obtain ⟨kind, lexeme, line⟩ := t
  cases kind
  case string =>
    cases written
    exact spells.quote_notMem
  case number =>
    cases written
    exact within _ (List.mem_filterMap.2 ⟨_, among, rfl⟩)
  all_goals cases written

/-- The printed tree is unambiguous. Of two programs that are read without complaint and in which there is no infinite
number, the printed trees are the same just if the programs are, but for the identities of nodes and the lines of
tokens. -/
theorem printed_trees_are_unambiguous {source source' : Text} {lastId lastId' : NodeId}
    (clean : (parse lastId (scan source)).errors = []) (clean' : (parse lastId' (scan source')).errors = [])
    (finite : ∀ x ∈ (scan source).numbers ++ (scan source').numbers, x.isInf = false) :
    treeText (parse lastId (scan source)).statements = treeText (parse lastId' (scan source')).statements ↔
      Stmt.bareAll (parse lastId (scan source)).statements =
        Stmt.bareAll (parse lastId' (scan source')).statements := by
  have text : ∀ ss, treeText ss = Text.unlines (Printed.texts (Stmt.printedAll ss)) := by
    intro ss
    rw [treeText, Stmt.texts_printed]
  constructor
  · intro same
    rw [text, text] at same
    have legible : Number.Legible ((scan source).numbers ++ (scan source').numbers) := by
      refine fun x among => Number.numeral_text ?_ (finite x among)
      rcases List.mem_append.1 among with first | second
      · exact (scan source).isNaN_numbers x first
      · exact (scan source').isNaN_numbers x second
    have left := (Parse.parse_sound lastId (scan source) clean).legible
      (scan_legible source fun _ => List.mem_append_left (scan source').numbers)
    have right := (Parse.parse_sound lastId' (scan source') clean').legible
      (scan_legible source' fun _ => List.mem_append_right (scan source).numbers)
    have read := congrArg Printed.stmts? (Printed.unlines_inj legible left right same)
    rw [Stmt.stmts?_printed, Stmt.stmts?_printed] at read
    exact Option.some.inj read
  · intro same
    rw [text, text, ← Stmt.printedAll_bare, same, Stmt.printedAll_bare]

/-- Programs on other lines, with a comment in one of them and the same numbers in other digits. Their strings have
parentheses and the end of a line in them. -/
theorem printed_trees_are_unambiguous_on_other_lines :
    let source := Text.ofString "class A < B \x7b m(a, b) \x7b this.x = -1.50 + a; \x7d \x7d print \") (\n\" - 2;"
    let source' := Text.ofString "class A // (
      < B \x7b m(a,\n b) \x7b this.x = -1.5 + a; \x7d \x7d
      print \") (\n\" - 02.0;"
    (scan source).tokens ≠ (scan source').tokens ∧
      treeText (parse 0 (scan source)).statements = treeText (parse 7 (scan source')).statements ∧
      Stmt.bareAll (parse 0 (scan source)).statements = Stmt.bareAll (parse 7 (scan source')).statements := by
  intro source source'
  have clean : (parse 0 (scan source)).errors = [] := by decide +kernel
  have clean' : (parse 7 (scan source')).errors = [] := by decide +kernel
  have same : treeText (parse 0 (scan source)).statements = treeText (parse 7 (scan source')).statements := by
    decide +kernel
  exact ⟨by decide +kernel, same, (printed_trees_are_unambiguous clean clean' (by decide +kernel)).1 same⟩

end Lox
