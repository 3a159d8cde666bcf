import Lox.Proofs.Token.Lexemes
import Lox.Proofs.Tree.Nodes

/-! What faults are blamed on. A fault blames a name or a mark of the program, on the line on which it stands. In a
tree of the grammar each of them is a token of the text that the tree was read from. -/
namespace Lox

mutual

/-- The names and marks of an expression that a fault in it can be blamed on. -/
def Expr.suspects : Expr → List Ident
  | .literal _ => []
  | .group inner => inner.suspects
  | .unary op line operand => ⟨op.symbol, line⟩ :: operand.suspects
  | .binary op line left right => ⟨op.symbol, line⟩ :: (left.suspects ++ right.suspects)
  | .logical _ left right => left.suspects ++ right.suspects
  | .use ref => [ref.name]
  | .assign ref value => ref.name :: value.suspects
  | .call callee arguments line => ⟨Text.ofString ")", line⟩ :: (callee.suspects ++ Expr.suspectsAll arguments)
  | .get object name => name :: object.suspects
  | .set object name value => name :: (object.suspects ++ value.suspects)
  | .self _ line => [⟨Names.this, line⟩]
  | .superMethod _ _ method => [method]

def Expr.suspectsAll : List Expr → List Ident
  | [] => []
  | e :: rest => e.suspects ++ Expr.suspectsAll rest

end

mutual

/-- The names and marks of a statement that a fault in it can be blamed on. -/
def Stmt.suspects : Stmt → List Ident
  | .expression e => e.suspects
  | .print e => e.suspects
  | .declare _ none => []
  | .declare _ (some e) => e.suspects
  | .block body => Stmt.suspectsAll body
  | .branch condition thenBranch none => condition.suspects ++ thenBranch.suspects
  | .branch condition thenBranch (some elseBranch) =>
    condition.suspects ++ (thenBranch.suspects ++ elseBranch.suspects)
  | .loop condition body => condition.suspects ++ body.suspects
  | .function decl => decl.suspects
  | .ret _ none => []
  | .ret _ (some e) => e.suspects
  | .classDef _ none methods => FunctionDecl.suspectsAll methods
  | .classDef _ (some superclass) methods => superclass.name :: FunctionDecl.suspectsAll methods

def Stmt.suspectsAll : List Stmt → List Ident
  | [] => []
  | s :: rest => s.suspects ++ Stmt.suspectsAll rest

def FunctionDecl.suspects : FunctionDecl → List Ident
  | ⟨_, _, body⟩ => Stmt.suspectsAll body

def FunctionDecl.suspectsAll : List FunctionDecl → List Ident
  | [] => []
  | decl :: rest => decl.suspects ++ FunctionDecl.suspectsAll rest

end

def Code.suspects : Code → List Ident
  | .expr e => e.suspects
  | .exprs es => Expr.suspectsAll es
  | .stmt s => s.suspects
  | .stmts ss => Stmt.suspectsAll ss
  | .function decl => decl.suspects
  | .functions decls => FunctionDecl.suspectsAll decls

/-! Tokens that are always spelled in the same way. -/

/-- A mark or a keyword has one spelling. -/
theorem Chunk.Spells.eq_of_listed {spelling : Text} (lexeme : Spells (.lexeme k) t)
    (listed : (spelling, k) ∈ TokenKind.marks ++ TokenKind.keywords) : t = spelling := by
  have once : ∀ a ∈ TokenKind.marks ++ TokenKind.keywords, ∀ b ∈ TokenKind.marks ++ TokenKind.keywords,
      a.2 = b.2 → a.1 = b.1 := by decide +kernel
  have fixed : ∀ a ∈ TokenKind.marks ++ TokenKind.keywords,
      a.2 ≠ .string ∧ a.2 ≠ .number ∧ a.2 ≠ .identifier := by decide +kernel
  cases lexeme with
  | mark among => exact once _ (List.mem_append_left _ among) _ listed rfl
  | keyword among => exact once _ (List.mem_append_right _ among) _ listed rfl
  | string => exact absurd rfl (fixed _ listed).1
  | whole | fraction => exact absurd rfl (fixed _ listed).2.1
  | identifier => exact absurd rfl (fixed _ listed).2.2

private theorem TokenKind.eq_of_mark (first : (t, k) ∈ marks) (second : (t, k') ∈ marks) : k = k' := by
  cases Chunk.Spells.kind_unique (.mark first) (.mark second)
  rfl

namespace Grammar

/-- Between two sides stands a logical operator, or the mark of a binary one. -/
theorem Rank.join?_mark {rank : Rank} (operator : rank.join? kind = some node) :
    (∃ op, node = fun _ => .logical op) ∨ ∃ op, node = .binary op ∧ (op.symbol, kind) ∈ TokenKind.marks := by
  unfold Rank.join? at operator
  split at operator <;> cases operator <;> first | exact .inl ⟨_, rfl⟩ | exact .inr ⟨_, rfl, by decide⟩

/-- The tokens that join two sides to a binary node are the marks of the operators, each on its level. -/
theorem Rank.join?_binary_iff {op : BinaryOp} :
    (∃ rank : Rank, rank.join? kind = some (.binary op)) ↔ (op.symbol, kind) ∈ TokenKind.marks := by
  constructor
  · rintro ⟨rank, operator⟩
    obtain ⟨other, node⟩ | ⟨other, node, listed⟩ := Rank.join?_mark operator
    · cases congrFun (congrFun (congrFun node 0) (.literal .nil)) (.literal .nil)
    · cases congrFun (congrFun (congrFun node 0) (.literal .nil)) (.literal .nil)
      exact listed
  · intro listed
    have only : ∀ k, (op.symbol, k) ∈ TokenKind.marks → kind = k := fun _ => TokenKind.eq_of_mark listed
    cases op with
    | equal => exact ⟨.equality, only .equalEqual (by decide) ▸ rfl⟩
    | notEqual => exact ⟨.equality, only .bangEqual (by decide) ▸ rfl⟩
    | arithmetic op =>
      cases op with
      | add => exact ⟨.term, only .plus (by decide) ▸ rfl⟩
      | sub => exact ⟨.term, only .minus (by decide) ▸ rfl⟩
      | mul => exact ⟨.factor, only .star (by decide) ▸ rfl⟩
      | div => exact ⟨.factor, only .slash (by decide) ▸ rfl⟩
      | less => exact ⟨.comparison, only .less (by decide) ▸ rfl⟩
      | lessEqual => exact ⟨.comparison, only .lessEqual (by decide) ▸ rfl⟩
      | greater => exact ⟨.comparison, only .greater (by decide) ▸ rfl⟩
      | greaterEqual => exact ⟨.comparison, only .greaterEqual (by decide) ▸ rfl⟩

/-- The tokens in front of an operand are the marks of the operators for one. -/
theorem sign?_iff : sign? kind = some op ↔ (op.symbol, kind) ∈ TokenKind.marks := by
  constructor
  · intro operator
    unfold sign? at operator
    split at operator <;> cases operator <;> decide
  · intro listed
    cases op with
    | not =>
      have only : kind = .bang := TokenKind.eq_of_mark listed (by decide)
      rw [only, sign?]
    | negate =>
      have only : kind = .minus := TokenKind.eq_of_mark listed (by decide)
      rw [only, sign?]

/-- A token whose name satisfies `ok` and that is spelled as its kind demands. -/
structure Vouched (ok : Ident → Prop) (t : Token) : Prop where
  ident : ok t.ident
  spells : Chunk.Spells (.lexeme t.kind) t.lexeme

private theorem Vouched.listed {spelling : Text} (vouched : Vouched ok t) (kind : t.kind = k)
    (listed : (spelling, k) ∈ TokenKind.marks ++ TokenKind.keywords) : ok ⟨spelling, t.line⟩ := by
  subst kind
  rw [← vouched.spells.eq_of_listed listed]
  exact vouched.ident

/-! The suspects of phrases. -/

def Phrase.suspects : Phrase → List Ident
  | .expr _ e => e.suspects
  | .optional none => []
  | .optional (some e) => e.suspects
  | .arguments es => Expr.suspectsAll es
  | .variableDecl s => s.suspects
  | .forClause none => []
  | .forClause (some s) => s.suspects
  | .statement s _ => s.suspects
  | .declaration s => s.suspects
  | .declarations ss => Stmt.suspectsAll ss
  | .function decl => decl.suspects
  | .methods decls => FunctionDecl.suspectsAll decls

/-- All suspects of a phrase satisfy `ok`. -/
def Phrase.Vouched (ok : Ident → Prop) (phrase : Phrase) : Prop := ∀ name ∈ phrase.suspects, ok name

private theorem forLoop_vouched (first : (Phrase.forClause init).Vouched ok)
    (condition : (Phrase.optional c).Vouched ok)
    (increment : (Phrase.optional step).Vouched ok) (body : (Phrase.statement s isOpen).Vouched ok) :
    (Phrase.statement (.forLoop init c step s) isOpen).Vouched ok := by
  have test : ∀ name ∈ (c.getD (.literal (.bool true))).suspects, ok name := by
    cases c with
    | none => exact List.forall_mem_nil _
    | some c => exact condition
  cases init <;> cases step <;>
    simp_all [Phrase.Vouched, Phrase.suspects, Stmt.forLoop, Stmt.suspects, Stmt.suspectsAll, or_imp]

private theorem Rank.join?_vouched {rank : Rank} (operator : rank.join? t.kind = some node) (token : Vouched ok t)
    (left : ∀ name ∈ a.suspects, ok name) (right : ∀ name ∈ b.suspects, ok name) :
    ∀ name ∈ (node t.line a b).suspects, ok name := by
  have sides := List.forall_mem_append.2 ⟨left, right⟩
  obtain ⟨op, rfl⟩ | ⟨op, rfl, listed⟩ := Rank.join?_mark operator
  · exact sides
  · exact List.forall_mem_cons.2 ⟨token.listed rfl (List.mem_append_left _ listed), sides⟩

/-- A fault in a phrase can only be blamed on tokens of the phrase. The marks and words that the tree has no token for
are spelled as their kinds demand. -/
theorem Derives.vouched (derived : Derives rule phrase ts i j) (tokens : ∀ t ∈ ts, Vouched ok t) :
    phrase.Vouched ok := by
  induction derived with
    try simp only [List.forall_mem_cons, List.forall_mem_append] at tokens
  | literal | noArguments | absent | noClause | bareVariable | noMethods | noDeclarations =>
    exact List.forall_mem_nil _
  | this keyword => exact List.forall_mem_cons.2 ⟨tokens.1.listed keyword (by decide +kernel), List.forall_mem_nil _⟩
  | use => exact List.forall_mem_cons.2 ⟨tokens.1.ident, List.forall_mem_nil _⟩
  | super => exact List.forall_mem_cons.2 ⟨tokens.2.2.1.ident, List.forall_mem_nil _⟩
  | group _ _ _ inner => exact inner tokens.2.1
  | lift _ _ inner | present _ inner | statement _ inner => exact inner tokens
  | oneArgument _ only => exact List.forall_mem_append.2 ⟨only tokens, List.forall_mem_nil _⟩
  | call _ _ _ _ closing callee args =>
    exact List.forall_mem_cons.2 ⟨tokens.2.2.2.1.listed closing (by decide +kernel),
      List.forall_mem_append.2 ⟨callee tokens.1, args tokens.2.2.1⟩⟩
  | get _ _ _ object => exact List.forall_mem_cons.2 ⟨tokens.2.2.1.ident, object tokens.1⟩
  | sign operator _ operand =>
    have listed := List.mem_append_left TokenKind.keywords (sign?_iff.1 operator)
    exact List.forall_mem_cons.2 ⟨tokens.1.listed rfl listed, operand tokens.2⟩
  | join operator _ _ _ left right =>
    exact Rank.join?_vouched operator tokens.2.1 (left tokens.1) (right tokens.2.2)
  | assign _ _ _ value => exact List.forall_mem_cons.2 ⟨tokens.1.ident, value tokens.2.2⟩
  | set _ _ _ _ _ object value =>
    exact List.forall_mem_cons.2 ⟨tokens.2.2.1.ident,
      List.forall_mem_append.2 ⟨object tokens.1, value tokens.2.2.2.2⟩⟩
  | moreArguments _ _ _ first rest => exact List.forall_mem_append.2 ⟨first tokens.1, rest tokens.2.2⟩
  | expression _ _ inner | expressionClause _ _ inner => exact inner tokens.1
  | print _ _ _ inner | block _ _ _ inner => exact inner tokens.2.1
  | @ret e _ _ _ _ _ _ _ _ value => cases e <;> exact value tokens.2.1
  | whileLoop _ _ _ _ _ condition body | ifOnly _ _ _ _ _ condition body =>
    exact List.forall_mem_append.2 ⟨condition tokens.2.2.1, body tokens.2.2.2.2⟩
  | ifElse _ _ _ _ _ _ _ _ condition thenPart elsePart =>
    exact List.forall_mem_append.2 ⟨condition tokens.2.2.1,
      List.forall_mem_append.2 ⟨thenPart tokens.2.2.2.2.1, elsePart tokens.2.2.2.2.2.2⟩⟩
  | forLoop _ _ _ _ _ _ _ _ first condition increment body =>
    exact forLoop_vouched (first tokens.2.2.1) (condition tokens.2.2.2.1) (increment tokens.2.2.2.2.2.1)
      (body tokens.2.2.2.2.2.2.2)
  | variableClause _ _ decl | variableDeclaration _ _ decl | functionDeclaration _ _ decl => exact decl tokens.2
  | initializedVariable _ _ _ _ value => exact value tokens.2.2.1
  | plainClass _ _ _ _ _ body => exact body tokens.2.2.2.1
  | subclass _ _ _ _ _ _ _ body =>
    exact List.forall_mem_cons.2 ⟨tokens.2.2.2.1.ident, body tokens.2.2.2.2.2.1⟩
  | function _ _ _ _ _ _ _ _ body => exact body tokens.2.2.2.2.2.1
  | moreMethods _ _ first rest | moreDeclarations _ _ first rest =>
    exact List.forall_mem_append.2 ⟨first tokens.1, rest tokens.2⟩

end Grammar

/-- A fault in a program can only be blamed on tokens of the text that the program is read from. -/
theorem Grammar.Derives.suspects_tokens {source : Text}
    (derived : Derives rule (.declarations ss) (scan source).tokens i j) :
    ∀ name ∈ Stmt.suspectsAll ss, ∃ t ∈ (scan source).tokens, t.ident = name :=
  derived.vouched fun t among => ⟨⟨t, among, rfl⟩, scan_spells source t among⟩

end Lox
