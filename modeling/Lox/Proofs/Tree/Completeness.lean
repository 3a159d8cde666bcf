import Lox.Proofs.Tree.Soundness

/-! What the grammar derives is read without complaint, and read as the tree of the derivation,
whatever follows, as long as the next token could not have extended it. -/
namespace Lox.Grammar

/-! First tokens. -/

/-- The kinds of tokens that an expression can start with. -/
def startsExpr : TokenKind → Bool
  | .kwFalse | .kwTrue | .kwNil | .number | .string | .kwThis | .kwSuper | .identifier | .leftParen
  | .bang | .minus => true
  | _ => false

private theorem Constant.starts (constant : Constant t v) : startsExpr t.kind = true ∧ sign? t.kind = none := by
  cases constant with
  | trueWord keyword | falseWord keyword | nilWord keyword => simp [keyword, startsExpr, sign?]
  | value own =>
    unfold Token.literal? at own
    split at own
    · rename_i kind; simp [kind, startsExpr, sign?]
    · rename_i kind; simp [kind, startsExpr, sign?]
    · cases own

/-- An expression starts with a token of its own; calls and their parts do not start with a sign. -/
theorem Derives.expr_first (derived : Derives rule (.expr rank e) ts i j) :
    ∃ t us, ts = t :: us ∧ startsExpr t.kind = true ∧
      (rank = .call ∨ rank = .primary → sign? t.kind = none) := by
  generalize shape : Phrase.expr rank e = phrase at derived
  induction derived generalizing rank e with
  | literal value =>
    cases shape
    have first := value.starts
    exact ⟨_, _, rfl, first.1, fun _ => first.2⟩
  | this keyword => cases shape; exact ⟨_, _, rfl, by simp [keyword, startsExpr], by simp [keyword, sign?]⟩
  | use named => cases shape; exact ⟨_, _, rfl, by simp [named, startsExpr], by simp [named, sign?]⟩
  | super keyword mark named =>
    cases shape
    exact ⟨_, _, rfl, by simp [keyword, startsExpr], by simp [keyword, sign?]⟩
  | group opening inner closing =>
    cases shape
    exact ⟨_, _, rfl, by simp [opening, startsExpr], by simp [opening, sign?]⟩
  | @lift rank' operand e ts i j tighter inner ih =>
    cases shape
    obtain ⟨t, us, rfl, starts, bare⟩ := ih rfl
    refine ⟨t, us, rfl, starts, ?_⟩
    rintro (rfl | rfl)
    · cases tighter
      exact bare (.inr rfl)
    · cases tighter
  | call callee opening args few closing ih =>
    cases shape
    obtain ⟨t, us, rfl, starts, bare⟩ := ih rfl
    exact ⟨t, _, rfl, starts, bare⟩
  | get object mark named ih =>
    cases shape
    obtain ⟨t, us, rfl, starts, bare⟩ := ih rfl
    exact ⟨t, _, rfl, starts, bare⟩
  | sign operator operand =>
    cases shape
    refine ⟨_, _, rfl, ?_, by simp⟩
    unfold sign? at operator
    split at operator <;> simp_all [startsExpr]
  | join operator left tighter right ih =>
    cases shape
    obtain ⟨t, us, rfl, starts, bare⟩ := ih rfl
    exact ⟨t, _, rfl, starts, bare⟩
  | assign named mark value => cases shape; exact ⟨_, _, rfl, by simp [named, startsExpr], by simp⟩
  | set object dotted named mark value ih =>
    cases shape
    obtain ⟨t, us, rfl, starts, bare⟩ := ih rfl
    exact ⟨t, _, rfl, starts, by simp⟩
  | _ => cases shape

/-- The kinds of tokens that a statement can start with. -/
def startsStmt : TokenKind → Bool
  | .kwFor | .kwIf | .kwPrint | .kwReturn | .kwWhile | .leftBrace => true
  | kind => startsExpr kind

/-- The kinds of tokens that a declaration can start with. -/
def startsDecl : TokenKind → Bool
  | .kwClass | .kwFun | .kwVar => true
  | kind => startsStmt kind

private theorem startsStmt_of_expr (starts : startsExpr kind = true) : startsStmt kind = true := by
  cases kind <;> first | rfl | exact starts

private theorem startsDecl_of_stmt (starts : startsStmt kind = true) : startsDecl kind = true := by
  cases kind <;> first | rfl | exact starts

private theorem Derives.statement_first (derived : Derives rule (.statement s isOpen) ts i j) :
    ∃ t us, ts = t :: us ∧ startsStmt t.kind = true := by
  cases derived with
  | expression inner mark =>
    obtain ⟨t, us, rfl, starts, -⟩ := inner.expr_first
    exact ⟨t, _, rfl, startsStmt_of_expr starts⟩
  | print keyword | ret keyword | block keyword | whileLoop keyword | ifOnly keyword
  | ifElse keyword | forLoop keyword => exact ⟨_, _, rfl, by simp [startsStmt, keyword]⟩

private theorem Derives.declaration_first (derived : Derives rule (.declaration s) ts i j) :
    ∃ t us, ts = t :: us ∧ startsDecl t.kind = true := by
  cases derived with
  | statement inner =>
    obtain ⟨t, us, rfl, starts⟩ := inner.statement_first
    exact ⟨t, us, rfl, startsDecl_of_stmt starts⟩
  | variableDeclaration keyword | functionDeclaration keyword | plainClass keyword
  | subclass keyword => exact ⟨_, _, rfl, by simp [startsDecl, keyword]⟩

/-- Declarations do not start in the middle of an `if`, nor with the end of a block. -/
theorem Derives.declarations_first {rest : List Token} (derived : Derives rule (.declarations ss) ts i j)
    (after : rest.head?.map (·.kind) ≠ some .kwElse) : (ts ++ rest).head?.map (·.kind) ≠ some .kwElse := by
  cases derived with
  | noDeclarations => exact after
  | moreDeclarations first more =>
    obtain ⟨t, us, rfl, starts⟩ := first.declaration_first
    simp only [List.cons_append, List.head?_cons, Option.map_some, ne_eq, Option.some.injEq]
    intro kind
    simp [kind, startsDecl, startsStmt, startsExpr] at starts

end Lox.Grammar
namespace Lox.Grammar

/-! What may follow. -/

def Rank.index : Rank → Nat
  | expression => 1
  | or => 2
  | and => 3
  | equality => 4
  | comparison => 5
  | term => 6
  | factor => 7
  | unary => 8
  | call => 9
  | primary => 10

/-- How tightly a token binds to an expression in front of it; zero if it never does. -/
def binding : TokenKind → Nat
  | .equal => 1
  | .kwOr => 2
  | .kwAnd => 3
  | .equalEqual | .bangEqual => 4
  | .greater | .greaterEqual | .less | .lessEqual => 5
  | .plus | .minus => 6
  | .slash | .star => 7
  | .leftParen | .dot => 9
  | _ => 0

/-- The tokens do not go on with an expression of the given level. -/
def Ends (rank : Rank) (rest : List Token) : Prop :=
  ∀ t, rest.head? = some t → binding t.kind < rank.index

private theorem Ends.mono (ends : Ends rank rest) (le : rank.index ≤ operand.index) : Ends operand rest :=
  fun t head => Nat.lt_of_lt_of_le (ends t head) le

private theorem ends_of_kind (free : binding t.kind = 0) : Ends rank (t :: rest) := by
  intro u head
  cases head
  rw [free]
  cases rank <;> decide

private theorem ends_primary : Ends .primary rest := by
  intro t _
  cases t.kind <;> decide

/-- An operator of a level ends the operand before it. -/
theorem Rank.join?_ends {rank : Rank} (operator : rank.join? t.kind = some node)
    (tighter : rank.tighter? = some operand) : Ends operand (t :: rest) := by
  intro u head
  cases head
  unfold Rank.join? at operator
  split at operator <;> cases operator <;> cases tighter <;> rename_i kind <;> simp [kind, binding, index]

/-- The level whose extension has to be ruled out before the loop of a level goes on. -/
def Rank.guarded : Rank → Rank
  | or => and
  | and => equality
  | equality => comparison
  | comparison => term
  | term => factor
  | factor => unary
  | call => primary
  | rank => rank

end Lox.Grammar

namespace Lox.Parse
open Grammar

/-- The parser of each level, among at most `n` tokens. -/
def parserOf (n : Nat) : Rank → Parser Expr
  | .expression => expression (n + 1)
  | .or => operators (expression n) (n + 1)
  | .and => level (n + 1) andOp <| level (n + 1) equalityOp <| level (n + 1) comparisonOp <|
      level (n + 1) termOp <| level (n + 1) factorOp <| unary (expression n) (n + 1) (n + 1)
  | .equality => level (n + 1) equalityOp <| level (n + 1) comparisonOp <| level (n + 1) termOp <|
      level (n + 1) factorOp <| unary (expression n) (n + 1) (n + 1)
  | .comparison => level (n + 1) comparisonOp <| level (n + 1) termOp <| level (n + 1) factorOp <|
      unary (expression n) (n + 1) (n + 1)
  | .term => level (n + 1) termOp <| level (n + 1) factorOp <| unary (expression n) (n + 1) (n + 1)
  | .factor => level (n + 1) factorOp <| unary (expression n) (n + 1) (n + 1)
  | .unary => unary (expression n) (n + 1) (n + 1)
  | .call => call (expression n) (n + 1)
  | .primary => primary (expression n)

/-- What the parser of a level does after it has read an expression: calls and operators may follow. -/
def resume (n : Nat) : Rank → Nat → Expr → Parser Expr
  | .call, m, e => callTail (expression n) m e
  | .or, m, e => chain (joiner .or) (parserOf n .and) m e
  | .and, m, e => chain (joiner .and) (parserOf n .equality) m e
  | .equality, m, e => chain (joiner .equality) (parserOf n .comparison) m e
  | .comparison, m, e => chain (joiner .comparison) (parserOf n .term) m e
  | .term, m, e => chain (joiner .term) (parserOf n .factor) m e
  | .factor, m, e => chain (joiner .factor) (parserOf n .unary) m e
  | _, _, e => pure e

private theorem bind_ok {f : α → Parser β} (ran : p s = .ok a t) : (p >>= f) s = f a t := by
  simp only [Bind.bind, EStateM.bind, ran]

theorem map_ok {f : α → β} (ran : (p : Parser α) s = .ok a t) : (f <$> p) s = .ok (f a) t := by
  simp only [Functor.map, EStateM.map, ran]

private theorem bind_congr_at {f : α → Parser β} (same : p s = q s) : (p >>= f) s = (q >>= f) s := by
  simp only [Bind.bind, EStateM.bind, same]

private theorem peek_eq : peek s = .ok s.tokens.head? s := rfl

private theorem peekKind_eq : peekKind s = .ok (s.tokens.head?.map (·.kind)) s := rfl

private theorem skip_cons : skip ⟨t :: rest, l, i, es⟩ = .ok () ⟨rest, l, i, es⟩ := rfl

private theorem acceptBy_none {f : Token → Option α} (other : ∀ t, s.tokens.head? = some t → f t = none) :
    acceptBy f s = .ok none s := by
  obtain ⟨tokens, endLine, lastId, errors⟩ := s
  cases tokens with
  | nil => rfl
  | cons t rest => simp [acceptBy, other t rfl]

private theorem acceptBy_cons {f : Token → Option α} (chosen : f t = some a) :
    acceptBy f ⟨t :: rest, l, i, es⟩ = .ok (some a) ⟨rest, l, i, es⟩ := by
  simp [acceptBy, chosen]

private theorem accept_none (other : s.tokens.head?.map (·.kind) ≠ some kind) : accept kind s = .ok none s := by
  refine acceptBy_none fun t head => ?_
  rw [head] at other
  simpa using other

@[simp] theorem accept_cons (kind : t.kind = k) :
    accept k ⟨t :: rest, l, i, es⟩ = .ok (some t) ⟨rest, l, i, es⟩ := by
  simp [accept, acceptBy, kind]

@[simp] theorem expect_cons (kind : t.kind = k) :
    expect k cause ⟨t :: rest, l, i, es⟩ = .ok t ⟨rest, l, i, es⟩ := by
  unfold expect
  rw [bind_ok (accept_cons kind)]
  rfl

/-- A level whose operators do not follow is done. -/
theorem chain_done (few : 0 < m) (ends : Ends rank s.tokens) :
    chain (joiner rank) p m e s = .ok e s := by
  obtain ⟨m, rfl⟩ := Nat.exists_eq_succ_of_ne_zero (Nat.pos_iff_ne_zero.mp few)
  unfold chain
  rw [bind_ok (acceptBy_none fun t head => ?_)]
  · rfl
  · have below := ends t head
    simp only [joiner, Option.map_eq_none_iff]
    cases operator : rank.join? t.kind with
    | none => rfl
    | some node =>
      unfold Rank.join? at operator
      split at operator <;> cases operator <;> rename_i kind <;> simp [kind, binding, Rank.index] at below

private theorem callTail_done {inner : Parser Expr} (few : 0 < m) (ends : Ends .call s.tokens) :
    callTail inner m e s = .ok e s := by
  obtain ⟨m, rfl⟩ := Nat.exists_eq_succ_of_ne_zero (Nat.pos_iff_ne_zero.mp few)
  unfold callTail
  obtain ⟨tokens, endLine, lastId, errors⟩ := s
  cases tokens with
  | nil => rfl
  | cons t rest =>
    have below := ends t rfl
    obtain ⟨kind, lexeme, line⟩ := t
    cases kind with
    | leftParen | dot => simp [binding, Rank.index] at below
    | _ => rfl

private theorem resume_done (few : 0 < m) (ends : Ends rank s.tokens) : resume n rank m e s = .ok e s := by
  cases rank with
  | or | and | equality | comparison | term | factor => exact chain_done few ends
  | call => exact callTail_done few ends
  | expression | unary | primary => rfl

/-- The levels with operators between two sides are loops over the next tighter level. -/
theorem parserOf_level {rank : Rank} (tighter : rank.tighter? = some operand)
    (binary : 2 ≤ rank.index ∧ rank.index ≤ 7) :
    rank.guarded = operand ∧ parserOf n rank = level (n + 1) (joiner rank) (parserOf n operand) ∧
      ∀ m e, resume n rank m e = chain (joiner rank) (parserOf n operand) m e := by
  cases rank <;> cases tighter <;> first
    | exact ⟨rfl, by simp only [parserOf, operators, orOp_eq, andOp_eq, equalityOp_eq, comparisonOp_eq,
        termOp_eq, factorOp_eq], fun _ _ => rfl⟩
    | simp [Rank.index] at binary

private theorem Rank.index_of_join? {rank : Rank} (operator : rank.join? kind = some node) :
    2 ≤ rank.index ∧ rank.index ≤ 7 := by
  unfold Rank.join? at operator
  split at operator <;> cases operator <;> decide

private theorem Rank.index_guarded (rank : Rank) : rank.index ≤ rank.guarded.index := by
  cases rank <;> decide

/-- Two bounds above the number of tokens left make no difference to a chain of signs. -/
theorem unary_bound {inner : Parser Expr} (few : s.tokens.length < m) (few' : s.tokens.length < k) :
    unary inner bound m s = unary inner bound k s := by
  induction m generalizing s k with
  | zero => omega
  | succ m ih =>
    obtain ⟨m', rfl⟩ := Nat.exists_eq_succ_of_ne_zero (Nat.ne_zero_of_lt few')
    obtain ⟨tokens, endLine, lastId, errors⟩ := s
    unfold unary
    cases tokens with
    | nil => rfl
    | cons t rest =>
      simp only [List.length_cons] at few few'
      cases sign : unaryOp? t with
      | none => rw [bind_ok (acceptBy_none (by simpa using sign)), bind_ok (acceptBy_none (by simpa using sign))]
      | some op =>
        rw [bind_ok (acceptBy_cons sign), bind_ok (acceptBy_cons sign)]
        exact bind_congr_at (ih (by simp only; omega) (by simp only; omega))

/-- How the parser of a phrase behaves on its tokens, whatever comes after them. -/
def Accepts : Phrase → List Token → NodeId → NodeId → Prop
  | .expr rank e, ts, i, j => ∀ n l es rest, (ts ++ rest).length ≤ n → Ends rank.guarded rest →
      ∃ m, rest.length < m ∧
        parserOf n rank ⟨ts ++ rest, l, i, es⟩ = resume n rank m e ⟨rest, l, j, es⟩
  | .optional e, ts, i, j => ∀ n l es stop rest, (ts ++ stop :: rest).length < n →
      stop.kind = .semicolon ∨ stop.kind = .rightParen →
      expressionUnless stop.kind n ⟨ts ++ stop :: rest, l, i, es⟩ = .ok e ⟨stop :: rest, l, j, es⟩
  | .arguments args, ts, i, j => args = [] ∧ ts = [] ∧ i = j ∨
      args ≠ [] ∧ (∃ t us, ts = t :: us ∧ startsExpr t.kind = true) ∧
      ∀ n m count l es stop rest, (ts ++ stop :: rest).length < n →
        (ts ++ stop :: rest).length < m → stop.kind = .rightParen → count + args.length ≤ most →
        arguments (expression n) m count ⟨ts ++ stop :: rest, l, i, es⟩ =
          .ok args ⟨stop :: rest, l, j, es⟩
  | .variableDecl s, ts, i, j => ∀ n l es rest, (ts ++ rest).length < n →
      variableDecl n ⟨ts ++ rest, l, i, es⟩ = .ok s ⟨rest, l, j, es⟩
  | .forClause s, ts, i, j => ∀ n l es rest, (ts ++ rest).length < n →
      forInitializer n ⟨ts ++ rest, l, i, es⟩ = .ok s ⟨rest, l, j, es⟩
  | .statement s isOpen, ts, i, j => ∀ n l es rest, (ts ++ rest).length < n →
      (isOpen = true → rest.head?.map (·.kind) ≠ some .kwElse) →
      statement n ⟨ts ++ rest, l, i, es⟩ = .ok s ⟨rest, l, j, es⟩
  | .declaration s, ts, i, j => ∀ n l es rest, (ts ++ rest).length < n →
      rest.head?.map (·.kind) ≠ some .kwElse →
      declaration n ⟨ts ++ rest, l, i, es⟩ = .ok (some s) ⟨rest, l, j, es⟩
  | .declarations ss, ts, i, j =>
      (∀ n m l es stop rest, (ts ++ stop :: rest).length < n → (ts ++ stop :: rest).length < m →
        stop.kind = .rightBrace →
        block (declaration n) m ⟨ts ++ stop :: rest, l, i, es⟩ = .ok ss ⟨rest, l, j, es⟩) ∧
      ∀ n l es rest, (ts ++ rest).length < n → rest.head?.map (·.kind) ≠ some .kwElse →
        ∃ m, rest.length < m ∧
          program n ⟨ts ++ rest, l, i, es⟩ = ((ss ++ ·) <$> program m) ⟨rest, l, j, es⟩
  | .function decl, ts, i, j => ∀ n l es rest kind, (ts ++ rest).length < n + 1 →
      functionDecl (declaration n) (n + 1) kind ⟨ts ++ rest, l, i, es⟩ = .ok decl ⟨rest, l, j, es⟩
  | .methods decls, ts, i, j => ∀ n m l es stop rest, (ts ++ stop :: rest).length < n + 1 →
      (ts ++ stop :: rest).length < m → stop.kind = .rightBrace →
      methods (declaration n) (n + 1) m ⟨ts ++ stop :: rest, l, i, es⟩ = .ok decls ⟨rest, l, j, es⟩

/-- Where nothing extends it, an expression is read as a whole. -/
theorem Accepts.finish (accepts : Accepts (.expr rank e) ts i j) (few : (ts ++ rest).length ≤ n)
    (ends : Ends rank rest) : parserOf n rank ⟨ts ++ rest, l, i, es⟩ = .ok e ⟨rest, l, j, es⟩ := by
  obtain ⟨m, more, read⟩ := accepts n l es rest few (ends.mono (Rank.index_guarded rank))
  rw [read, resume_done (by omega) ends]

private theorem Accepts.whole (accepts : Accepts (.expr .expression e) ts i j)
    (few : (ts ++ rest).length < n) (ends : Ends .expression rest) :
    expression n ⟨ts ++ rest, l, i, es⟩ = .ok e ⟨rest, l, j, es⟩ := by
  obtain ⟨n, rfl⟩ := Nat.exists_eq_succ_of_ne_zero (Nat.ne_zero_of_lt few)
  exact accepts.finish (n := n) (by omega) ends

/-! One lemma for each kind of expression. -/

private theorem accepts_single (reads : ∀ n l es rest, primary (expression n) ⟨t :: rest, l, i, es⟩ =
    .ok e ⟨rest, l, j, es⟩) : Accepts (.expr .primary e) [t] i j :=
  fun n l es rest _ _ => ⟨rest.length + 1, Nat.lt_succ_self _, reads n l es rest⟩

private theorem accepts_literal (value : Constant t v) : Accepts (.expr .primary (.literal v)) [t] i i := by
  refine accepts_single fun n l es rest => ?_
  unfold primary
  rw [bind_ok peek_eq]
  simp only [List.head?_cons, constant?_eq_some_iff.2 value]
  rfl

/-- The kinds that start a primary expression other than a constant are no constants. -/
theorem constant?_eq_none (kind : t.kind = .kwThis ∨ t.kind = .identifier ∨ t.kind = .kwSuper ∨
    t.kind = .leftParen) : constant? t = none := by
  obtain ⟨k, lexeme, line⟩ := t
  obtain rfl | rfl | rfl | rfl := kind <;> rfl

private theorem accepts_this (keyword : t.kind = .kwThis) :
    Accepts (.expr .primary (.self (i + 1) t.line)) [t] i (i + 1) := by
  refine accepts_single fun n l es rest => ?_
  unfold primary
  rw [bind_ok peek_eq]
  simp only [List.head?_cons, constant?_eq_none (.inl keyword), keyword]
  rfl

private theorem accepts_use (named : t.kind = .identifier) :
    Accepts (.expr .primary (.use ⟨i + 1, t.ident⟩)) [t] i (i + 1) := by
  refine accepts_single fun n l es rest => ?_
  unfold primary
  rw [bind_ok peek_eq]
  simp only [List.head?_cons, constant?_eq_none (.inr (.inl named)), named]
  rfl

private theorem accepts_super (keyword : t.kind = .kwSuper) (mark : dot.kind = .dot)
    (named : name.kind = .identifier) :
    Accepts (.expr .primary (.superMethod (i + 1) t.line name.ident)) [t, dot, name] i (i + 1) := by
  intro n l es rest _ _
  refine ⟨rest.length + 1, Nat.lt_succ_self _, ?_⟩
  show primary (expression n) ⟨t :: dot :: name :: rest, l, i, es⟩ = _
  unfold primary
  rw [bind_ok peek_eq]
  simp only [List.head?_cons, constant?_eq_none (.inr (.inr (.inl keyword))), keyword]
  rw [bind_ok skip_cons, bind_ok (expect_cons mark), bind_ok (expect_cons named)]
  rfl

private theorem accepts_group (opening : left.kind = .leftParen) (inner : Accepts (.expr .expression e) ts i j)
    (closing : right.kind = .rightParen) : Accepts (.expr .primary (.group e)) (left :: (ts ++ [right])) i j := by
  intro n l es rest few _
  simp only [List.cons_append, List.append_assoc, List.nil_append, List.length_cons] at few ⊢
  refine ⟨rest.length + 1, Nat.lt_succ_self _, ?_⟩
  have ends : Ends .expression (right :: rest) := ends_of_kind (by simp [closing, binding])
  show primary (expression n) _ = _
  unfold primary
  rw [bind_ok peek_eq]
  simp only [List.head?_cons, constant?_eq_none (.inr (.inr (.inr opening))), opening]
  rw [bind_ok skip_cons, bind_ok (inner.whole (by omega) ends),
    bind_ok (expect_cons closing)]
  rfl

private theorem accepts_call (callee : Accepts (.expr .call f) ts i j) (opening : left.kind = .leftParen)
    (args : Accepts (.arguments as) us j k) (short : as.length ≤ most)
    (closing : right.kind = .rightParen) :
    Accepts (.expr .call (.call f as right.line)) (ts ++ left :: (us ++ [right])) i k := by
  intro n l es rest few _
  simp only [List.append_assoc, List.cons_append, List.nil_append] at few ⊢
  obtain ⟨m, more, read⟩ := callee n l es (left :: (us ++ right :: rest)) few ends_primary
  simp only [List.length_append, List.length_cons] at few more
  obtain ⟨m, rfl⟩ := Nat.exists_eq_succ_of_ne_zero (Nat.ne_zero_of_lt more)
  have list : argumentList (expression n) (m + 1) ⟨us ++ right :: rest, l, j, es⟩ =
      .ok as ⟨right :: rest, l, k, es⟩ := by
    unfold argumentList
    rw [bind_ok peekKind_eq]
    obtain ⟨rfl, rfl, rfl⟩ | ⟨-, ⟨t, us, rfl, starts⟩, reads⟩ := args
    · simp only [List.nil_append, List.head?_cons, Option.map_some, closing, ↓reduceIte]
      rfl
    · have other : t.kind ≠ .rightParen := fun kind => by simp [kind, startsExpr] at starts
      simp only [List.cons_append, List.head?_cons, Option.map_some, Option.some.injEq, other, ↓reduceIte]
      simp only [List.length_cons] at few more
      exact reads n (m + 1) 0 l es right rest (by simp; omega) (by simp; omega) closing (by omega)
  refine ⟨m, by omega, ?_⟩
  rw [read]
  show callTail (expression n) (m + 1) f _ = _
  unfold callTail
  rw [bind_ok peekKind_eq]
  simp only [List.head?_cons, Option.map_some, opening]
  rw [bind_ok skip_cons, bind_ok list, bind_ok (expect_cons closing)]
  rfl

private theorem accepts_get (object : Accepts (.expr .call o) ts i j) (mark : dot.kind = .dot)
    (named : name.kind = .identifier) : Accepts (.expr .call (.get o name.ident)) (ts ++ [dot, name]) i j := by
  intro n l es rest few _
  simp only [List.append_assoc, List.cons_append, List.nil_append] at few ⊢
  obtain ⟨m, more, read⟩ := object n l es (dot :: name :: rest) few ends_primary
  simp only [List.length_cons] at more
  obtain ⟨m, rfl⟩ := Nat.exists_eq_succ_of_ne_zero (Nat.ne_zero_of_lt more)
  refine ⟨m, by omega, ?_⟩
  rw [read]
  show callTail (expression n) (m + 1) o _ = _
  unfold callTail
  rw [bind_ok peekKind_eq]
  simp only [List.head?_cons, Option.map_some, mark]
  rw [bind_ok skip_cons, bind_ok (expect_cons named)]
  rfl

private theorem unaryOp?_eq (t : Token) : unaryOp? t = (sign? t.kind).map (·, t.line) := by
  obtain ⟨kind, lexeme, line⟩ := t
  cases kind <;> rfl

private theorem accepts_sign (operator : sign? t.kind = some op) (operand : Accepts (.expr .unary e) ts i j) :
    Accepts (.expr .unary (.unary op t.line e)) (t :: ts) i j := by
  intro n l es rest few ends
  simp only [List.cons_append, List.length_cons] at few ⊢
  refine ⟨rest.length + 1, Nat.lt_succ_self _, ?_⟩
  have read : unary (expression n) (n + 1) n ⟨ts ++ rest, l, i, es⟩ = .ok e ⟨rest, l, j, es⟩ := by
    rw [unary_bound (k := n + 1) (by simp only; omega) (by simp only; omega)]
    exact operand.finish (by omega) ends
  show unary (expression n) (n + 1) (n + 1) _ = _
  unfold unary
  refine (bind_ok (acceptBy_cons (a := (op, t.line)) (by rw [unaryOp?_eq, operator]; rfl))).trans ?_
  exact bind_ok read

private theorem chain_join {rank : Rank} (operator : rank.join? t.kind = some node) :
    chain (joiner rank) p (m + 1) a ⟨t :: rest, l, i, es⟩ =
      (p >>= fun b => chain (joiner rank) p m (node t.line a b)) ⟨rest, l, i, es⟩ := by
  conv => lhs; unfold chain
  exact bind_ok (acceptBy_cons (by simp [joiner, operator]))

private theorem accepts_join {rank : Rank} (operator : rank.join? t.kind = some node)
    (left : Accepts (.expr rank a) ts i j) (tighter : rank.tighter? = some operand)
    (right : Accepts (.expr operand b) us j k) :
    Accepts (.expr rank (node t.line a b)) (ts ++ t :: us) i k := by
  intro n l es rest few ends
  obtain ⟨guarded, -, loop⟩ := parserOf_level (n := n) tighter (Rank.index_of_join? operator)
  rw [guarded] at ends
  simp only [List.append_assoc, List.cons_append] at few ⊢
  obtain ⟨m, more, read⟩ := left n l es (t :: (us ++ rest)) few
    (guarded ▸ Rank.join?_ends operator tighter)
  simp only [List.length_append, List.length_cons] at few more
  obtain ⟨m, rfl⟩ := Nat.exists_eq_succ_of_ne_zero (Nat.ne_zero_of_lt more)
  refine ⟨m, by omega, ?_⟩
  rw [read, loop, loop, chain_join operator]
  exact bind_ok (right.finish (by simp only [List.length_append]; omega) ends)

/-- An expression of one level is one of the next looser level, unless a sign or a mark decides
otherwise. -/
theorem accepts_lift {rank : Rank} (tighter : rank.tighter? = some operand)
    (derived : Derives rule (.expr operand e) ts i j) (inner : Accepts (.expr operand e) ts i j) :
    Accepts (.expr rank e) ts i j := by
  intro n l es rest few ends
  by_cases binary : 2 ≤ rank.index ∧ rank.index ≤ 7
  · obtain ⟨guarded, parser, loop⟩ := parserOf_level (n := n) tighter binary
    rw [guarded] at ends
    refine ⟨n + 1, by simp only [List.length_append] at few; omega, ?_⟩
    rw [parser, loop, level, bind_ok (inner.finish few ends)]
  · cases rank with
    | expression =>
      cases tighter
      refine ⟨rest.length + 1, Nat.lt_succ_self _, ?_⟩
      show assignment (expression n) (n + 1) _ = _
      unfold assignment
      refine (bind_ok (inner.finish few (ends.mono (by decide)))).trans ?_
      refine (bind_ok (accept_none ?_)).trans rfl
      · intro mark
        obtain ⟨t, head, kind⟩ := Option.map_eq_some_iff.mp mark
        have below := ends t head
        simp [kind, binding, Rank.guarded, Rank.index] at below
    | unary =>
      cases tighter
      refine ⟨rest.length + 1, Nat.lt_succ_self _, ?_⟩
      obtain ⟨t, us, rfl, -, bare⟩ := derived.expr_first
      show unary (expression n) (n + 1) (n + 1) _ = _
      unfold unary
      rw [bind_ok (acceptBy_none ?_)]
      · exact inner.finish few (ends.mono (by decide))
      · intro u head
        cases head
        rw [unaryOp?_eq, bare (.inl rfl)]
        rfl
    | call =>
      cases tighter
      refine ⟨n + 1, by simp only [List.length_append] at few; omega, ?_⟩
      show call (expression n) (n + 1) _ = _
      unfold call
      exact bind_ok (inner.finish few ends_primary)
    | primary => cases tighter
    | or | and | equality | comparison | term | factor => simp [Rank.index] at binary

/-- What is read as a call is read as a target of an assignment. -/
theorem accepts_target (derived : Derives rule (.expr .call e) ts i j)
    (accepts : Accepts (.expr .call e) ts i j) : Accepts (.expr .or e) ts i j := by
  have step {rank operand} (tighter : rank.tighter? = some operand)
      (both : Derives rule (.expr operand e) ts i j ∧ Accepts (.expr operand e) ts i j) :
      Derives rule (.expr rank e) ts i j ∧ Accepts (.expr rank e) ts i j :=
    ⟨.lift tighter both.1, accepts_lift tighter both.1 both.2⟩
  have unary := step (rfl : Rank.unary.tighter? = some .call) ⟨derived, accepts⟩
  have factor := step (rfl : Rank.factor.tighter? = some .unary) unary
  have comparison := step (rfl : Rank.comparison.tighter? = some .term) (step rfl factor)
  exact (step rfl (step rfl (step (rfl : Rank.equality.tighter? = some .comparison) comparison))).2

/-- A target that is followed by an equal sign. -/
theorem Accepts.target_finish (accepts : Accepts (.expr .or e) ts i j) (mark : equal.kind = .equal)
    (few : (ts ++ equal :: rest).length ≤ n) :
    operators (expression n) (n + 1) ⟨ts ++ equal :: rest, l, i, es⟩ =
      .ok e ⟨equal :: rest, l, j, es⟩ := by
  refine accepts.finish few fun t head => ?_
  cases head
  simp [mark, binding, Rank.index]

private theorem accepts_assign (named : name.kind = .identifier) (mark : equal.kind = .equal)
    (value : Accepts (.expr .expression e) ts (i + 1) j) :
    Accepts (.expr .expression (.assign ⟨j + 1, name.ident⟩ e)) (name :: equal :: ts) i (j + 1) := by
  intro n l es rest few ends
  simp only [List.cons_append, List.length_cons] at few ⊢
  refine ⟨rest.length + 1, Nat.lt_succ_self _, ?_⟩
  have used : Derives .nearest (.expr .primary (.use ⟨i + 1, name.ident⟩)) [name] i (i + 1) := .use named
  have target := accepts_target (.lift rfl used) (accepts_lift rfl used (accepts_use named))
  have all : ([name] ++ equal :: (ts ++ rest)).length ≤ n := by
    simp only [List.cons_append, List.nil_append, List.length_cons]
    omega
  show assignment (expression n) (n + 1) _ = _
  unfold assignment
  refine (bind_ok (Accepts.target_finish target mark all)).trans ((bind_ok (accept_cons mark)).trans ?_)
  exact (bind_ok (value.whole (by omega) ends)).trans rfl

private theorem accepts_set (derived : Derives rule (.expr .call o) ts i j)
    (object : Accepts (.expr .call o) ts i j) (dotted : dot.kind = .dot)
    (named : name.kind = .identifier) (mark : equal.kind = .equal)
    (value : Accepts (.expr .expression e) us j k) :
    Accepts (.expr .expression (.set o name.ident e)) (ts ++ dot :: name :: equal :: us) i k := by
  intro n l es rest few ends
  have split : ts ++ dot :: name :: equal :: us ++ rest = (ts ++ [dot, name]) ++ equal :: (us ++ rest) := by
    simp
  rw [split] at few ⊢
  refine ⟨rest.length + 1, Nat.lt_succ_self _, ?_⟩
  have target := accepts_target (derived.get dotted named) (accepts_get object dotted named)
  have fewer : (us ++ rest).length < n := by
    simp only [List.length_append, List.length_cons] at few ⊢
    omega
  show assignment (expression n) (n + 1) _ = _
  unfold assignment
  refine (bind_ok (Accepts.target_finish target mark few)).trans ((bind_ok (accept_cons mark)).trans ?_)
  exact (bind_ok (value.whole fewer ends)).trans rfl

/-! Lists and optional expressions. -/

private theorem checkLength_done (short : count < most) : checkLength cause count s = .ok () s := by
  unfold checkLength
  rw [if_neg (by unfold maxListLength; unfold most at short; omega)]
  rfl

private theorem accepts_oneArgument (derived : Derives rule (.expr .expression e) ts i j)
    (only : Accepts (.expr .expression e) ts i j) : Accepts (.arguments [e]) ts i j := by
  obtain ⟨t, us, rfl, starts, -⟩ := derived.expr_first
  refine .inr ⟨by simp, ⟨t, us, rfl, starts⟩, ?_⟩
  intro n m count l es stop rest few within closing short
  obtain ⟨m, rfl⟩ := Nat.exists_eq_succ_of_ne_zero (Nat.ne_zero_of_lt within)
  have ends : Ends .expression (stop :: rest) := ends_of_kind (by simp [closing, binding])
  unfold arguments
  refine (bind_ok (checkLength_done short)).trans ?_
  refine (bind_ok (only.whole few ends)).trans ((bind_ok (accept_none ?_)).trans rfl)
  simp [closing]

private theorem accepts_moreArguments (derived : Derives rule (.expr .expression e) ts i j)
    (first : Accepts (.expr .expression e) ts i j) (mark : comma.kind = .comma)
    (more : Accepts (.arguments (next :: as)) us j k) :
    Accepts (.arguments (e :: next :: as)) (ts ++ comma :: us) i k := by
  obtain ⟨t, vs, rfl, starts, -⟩ := derived.expr_first
  refine .inr ⟨by simp, ⟨t, _, rfl, starts⟩, ?_⟩
  intro n m count l es stop rest few within closing short
  obtain ⟨m, rfl⟩ := Nat.exists_eq_succ_of_ne_zero (Nat.ne_zero_of_lt within)
  obtain ⟨impossible, -⟩ | ⟨-, -, reads⟩ := more
  · cases impossible
  · have ends : Ends .expression (comma :: (us ++ stop :: rest)) := ends_of_kind (by simp [mark, binding])
    simp only [List.length_cons, List.length_append, List.append_assoc, List.cons_append] at few within short ⊢
    unfold arguments
    have all : (t :: vs ++ comma :: (us ++ stop :: rest)).length < n := by
      simp only [List.cons_append, List.length_cons, List.length_append]
      omega
    have later := reads n m (count + 1) l es stop rest (by simp; omega) (by simp; omega) closing
      (by simp only [List.length_cons]; omega)
    refine (bind_ok (checkLength_done (by omega))).trans ?_
    refine (bind_ok (first.whole all ends)).trans ((bind_ok (accept_cons mark)).trans ?_)
    exact (bind_ok later).trans rfl

private theorem accepts_absent : Accepts (.optional none) [] i i := by
  intro n l es stop rest _ _
  unfold expressionUnless
  refine (bind_ok peekKind_eq).trans ?_
  simp only [List.nil_append, List.head?_cons, Option.map_some, ↓reduceIte]
  rfl

private theorem accepts_present (derived : Derives rule (.expr .expression e) ts i j)
    (inner : Accepts (.expr .expression e) ts i j) : Accepts (.optional (some e)) ts i j := by
  intro n l es stop rest few stops
  obtain ⟨t, us, rfl, starts, -⟩ := derived.expr_first
  have other : t.kind ≠ stop.kind := by
    intro same
    rw [same] at starts
    obtain kind | kind := stops <;> simp [kind, startsExpr] at starts
  have ends : Ends .expression (stop :: rest) := by
    obtain kind | kind := stops <;> exact ends_of_kind (by simp [kind, binding])
  unfold expressionUnless
  refine (bind_ok peekKind_eq).trans ?_
  simp only [List.cons_append, List.head?_cons, Option.map_some, Option.some.injEq, other, ↓reduceIte]
  exact map_ok (inner.whole few ends)

/-! Statements. -/

/-- The first token says what kind of statement is read. -/
theorem statementStep_cons :
    statementStep self decl bound ⟨t :: rest, l, i, es⟩ =
      match t.kind with
      | .kwFor => forStmt self bound ⟨rest, l, i, es⟩
      | .kwIf => ifStmt self bound ⟨rest, l, i, es⟩
      | .kwPrint => printStmt bound ⟨rest, l, i, es⟩
      | .kwReturn => returnStmt bound t.line ⟨rest, l, i, es⟩
      | .kwWhile => whileStmt self bound ⟨rest, l, i, es⟩
      | .leftBrace => (Stmt.block <$> block decl bound) ⟨rest, l, i, es⟩
      | _ => expressionStmt bound ⟨t :: rest, l, i, es⟩ := by
  obtain ⟨kind, lexeme, line⟩ := t
  cases kind <;> rfl

private theorem declarationStep_cons :
    declarationStep self decl bound ⟨t :: rest, l, i, es⟩ =
      match t.kind with
      | .kwClass => classDecl decl bound ⟨rest, l, i, es⟩
      | .kwFun => (Stmt.function <$> functionDecl decl bound .function) ⟨rest, l, i, es⟩
      | .kwVar => variableDecl bound ⟨rest, l, i, es⟩
      | _ => statementStep self decl bound ⟨t :: rest, l, i, es⟩ := by
  obtain ⟨kind, lexeme, line⟩ := t
  cases kind <;> rfl

private theorem statementStep_expression (starts : startsExpr t.kind = true) :
    statementStep self decl bound ⟨t :: rest, l, i, es⟩ =
      expressionStmt bound ⟨t :: rest, l, i, es⟩ := by
  obtain ⟨kind, lexeme, line⟩ := t
  cases kind <;> first | rfl | simp [startsExpr] at starts

private theorem declarationStep_statement (starts : startsStmt t.kind = true) :
    declarationStep self decl bound ⟨t :: rest, l, i, es⟩ =
      statementStep self decl bound ⟨t :: rest, l, i, es⟩ := by
  obtain ⟨kind, lexeme, line⟩ := t
  cases kind <;> first | rfl | simp [startsStmt, startsExpr] at starts

private theorem expressionStmt_done (inner : Accepts (.expr .expression e) ts i j)
    (mark : semi.kind = .semicolon) (few : (ts ++ semi :: rest).length < n) :
    expressionStmt n ⟨ts ++ semi :: rest, l, i, es⟩ = .ok (.expression e) ⟨rest, l, j, es⟩ := by
  have ends : Ends .expression (semi :: rest) := ends_of_kind (by simp [mark, binding])
  unfold expressionStmt
  exact (bind_ok (inner.whole few ends)).trans ((bind_ok (expect_cons mark)).trans rfl)

private theorem accepts_expression (derived : Derives rule (.expr .expression e) ts i j)
    (inner : Accepts (.expr .expression e) ts i j) (mark : semi.kind = .semicolon) :
    Accepts (.statement (.expression e) false) (ts ++ [semi]) i j := by
  intro n l es rest few _
  obtain ⟨n, rfl⟩ := Nat.exists_eq_succ_of_ne_zero (Nat.ne_zero_of_lt few)
  obtain ⟨t, us, rfl, starts, -⟩ := derived.expr_first
  simp only [List.append_assoc, List.cons_append, List.nil_append] at few ⊢
  show statementStep _ _ _ _ = _
  rw [statementStep_expression starts]
  exact expressionStmt_done inner mark few

private theorem accepts_print (keyword : t.kind = .kwPrint) (inner : Accepts (.expr .expression e) ts i j)
    (mark : semi.kind = .semicolon) :
    Accepts (.statement (.print e) false) (t :: (ts ++ [semi])) i j := by
  intro n l es rest few _
  obtain ⟨n, rfl⟩ := Nat.exists_eq_succ_of_ne_zero (Nat.ne_zero_of_lt few)
  simp only [List.append_assoc, List.cons_append, List.nil_append, List.length_cons] at few ⊢
  have ends : Ends .expression (semi :: rest) := ends_of_kind (by simp [mark, binding])
  show statementStep _ _ _ _ = _
  simp only [statementStep_cons, keyword]
  unfold printStmt
  exact (bind_ok (inner.whole (by omega) ends)).trans ((bind_ok (expect_cons mark)).trans rfl)

private theorem accepts_ret (keyword : t.kind = .kwReturn) (value : Accepts (.optional e) ts i j)
    (mark : semi.kind = .semicolon) :
    Accepts (.statement (.ret t.line e) false) (t :: (ts ++ [semi])) i j := by
  intro n l es rest few _
  obtain ⟨n, rfl⟩ := Nat.exists_eq_succ_of_ne_zero (Nat.ne_zero_of_lt few)
  simp only [List.append_assoc, List.cons_append, List.nil_append, List.length_cons] at few ⊢
  have read := value (n + 1) l es semi rest (by omega) (.inl mark)
  rw [mark] at read
  show statementStep _ _ _ _ = _
  simp only [statementStep_cons, keyword]
  unfold returnStmt
  exact (bind_ok read).trans ((bind_ok (expect_cons mark)).trans rfl)

private theorem accepts_block (opening : left.kind = .leftBrace) (body : Accepts (.declarations ss) ts i j)
    (closing : right.kind = .rightBrace) :
    Accepts (.statement (.block ss) false) (left :: (ts ++ [right])) i j := by
  intro n l es rest few _
  obtain ⟨n, rfl⟩ := Nat.exists_eq_succ_of_ne_zero (Nat.ne_zero_of_lt few)
  simp only [List.append_assoc, List.cons_append, List.nil_append, List.length_cons] at few ⊢
  have read := body.1 n (n + 1) l es right rest (by omega) (by omega) closing
  show statementStep _ _ _ _ = _
  simp only [statementStep_cons, opening]
  exact map_ok read

private theorem accepts_whileLoop (keyword : t.kind = .kwWhile) (opening : left.kind = .leftParen)
    (condition : Accepts (.expr .expression c) ts i j) (closing : right.kind = .rightParen)
    (body : Accepts (.statement s isOpen) us j k) :
    Accepts (.statement (.loop c s) isOpen) (t :: left :: (ts ++ right :: us)) i k := by
  intro n l es rest few notElse
  obtain ⟨n, rfl⟩ := Nat.exists_eq_succ_of_ne_zero (Nat.ne_zero_of_lt few)
  simp only [List.append_assoc, List.cons_append, List.length_cons] at few ⊢
  have ends : Ends .expression (right :: (us ++ rest)) := ends_of_kind (by simp [closing, binding])
  have fewer : (us ++ rest).length < n := by
    simp only [List.length_append, List.length_cons] at few ⊢
    omega
  show statementStep _ _ _ _ = _
  simp only [statementStep_cons, keyword]
  unfold whileStmt
  refine (bind_ok (expect_cons opening)).trans ((bind_ok (condition.whole (by omega) ends)).trans ?_)
  refine (bind_ok (expect_cons closing)).trans ((bind_ok (body n l es rest fewer notElse)).trans rfl)

private theorem accepts_ifOnly (keyword : t.kind = .kwIf) (opening : left.kind = .leftParen)
    (condition : Accepts (.expr .expression c) ts i j) (closing : right.kind = .rightParen)
    (thenPart : Accepts (.statement s isOpen) us j k) :
    Accepts (.statement (.branch c s none) true) (t :: left :: (ts ++ right :: us)) i k := by
  intro n l es rest few notElse
  obtain ⟨n, rfl⟩ := Nat.exists_eq_succ_of_ne_zero (Nat.ne_zero_of_lt few)
  simp only [List.append_assoc, List.cons_append, List.length_cons] at few ⊢
  have ends : Ends .expression (right :: (us ++ rest)) := ends_of_kind (by simp [closing, binding])
  have fewer : (us ++ rest).length < n := by
    simp only [List.length_append, List.length_cons] at few ⊢
    omega
  show statementStep _ _ _ _ = _
  simp only [statementStep_cons, keyword]
  unfold ifStmt
  refine (bind_ok (expect_cons opening)).trans ((bind_ok (condition.whole (by omega) ends)).trans ?_)
  refine (bind_ok (expect_cons closing)).trans ?_
  refine (bind_ok (thenPart n l es rest fewer fun _ => notElse rfl)).trans ?_
  exact (bind_ok (accept_none (notElse rfl))).trans rfl

private theorem accepts_ifElse (keyword : t.kind = .kwIf) (opening : left.kind = .leftParen)
    (condition : Accepts (.expr .expression c) ts i j) (closing : right.kind = .rightParen)
    (thenPart : Accepts (.statement s thenOpen) us j k) (closed : thenOpen = false)
    (other : orElse.kind = .kwElse) (elsePart : Accepts (.statement s' isOpen) vs k m) :
    Accepts (.statement (.branch c s (some s')) isOpen)
      (t :: left :: (ts ++ right :: (us ++ orElse :: vs))) i m := by
  intro n l es rest few notElse
  obtain ⟨n, rfl⟩ := Nat.exists_eq_succ_of_ne_zero (Nat.ne_zero_of_lt few)
  simp only [List.append_assoc, List.cons_append, List.length_cons] at few ⊢
  have ends : Ends .expression (right :: (us ++ orElse :: (vs ++ rest))) :=
    ends_of_kind (by simp [closing, binding])
  have fewer : (us ++ orElse :: (vs ++ rest)).length < n ∧ (vs ++ rest).length < n := by
    simp only [List.length_append, List.length_cons] at few ⊢
    omega
  show statementStep _ _ _ _ = _
  simp only [statementStep_cons, keyword]
  unfold ifStmt
  refine (bind_ok (expect_cons opening)).trans ((bind_ok (condition.whole (by omega) ends)).trans ?_)
  refine (bind_ok (expect_cons closing)).trans ?_
  refine (bind_ok (thenPart n l es _ fewer.1 (by simp [closed]))).trans ?_
  refine (bind_ok (accept_cons other)).trans ?_
  exact (bind_ok (elsePart n l es rest fewer.2 notElse)).trans rfl

private theorem accepts_forLoop (keyword : t.kind = .kwFor) (opening : left.kind = .leftParen)
    (first : Accepts (.forClause init) ts i j) (condition : Accepts (.optional c) us j k)
    (mark : semi.kind = .semicolon) (increment : Accepts (.optional step) vs k m)
    (closing : right.kind = .rightParen) (body : Accepts (.statement s isOpen) ws m o) :
    Accepts (.statement (.forLoop init c step s) isOpen)
      (t :: left :: (ts ++ (us ++ semi :: (vs ++ right :: ws)))) i o := by
  intro n l es rest few notElse
  obtain ⟨n, rfl⟩ := Nat.exists_eq_succ_of_ne_zero (Nat.ne_zero_of_lt few)
  simp only [List.append_assoc, List.cons_append, List.length_cons, List.length_append] at few ⊢
  have readFirst := first (n + 1) l es (us ++ semi :: (vs ++ right :: (ws ++ rest)))
    (by simp only [List.length_append, List.length_cons]; omega)
  have readCondition := condition (n + 1) l es semi (vs ++ right :: (ws ++ rest))
    (by simp only [List.length_append, List.length_cons]; omega) (.inl mark)
  have readStep := increment (n + 1) l es right (ws ++ rest)
    (by simp only [List.length_append, List.length_cons]; omega) (.inr closing)
  have readBody := body n l es rest (by simp only [List.length_append]; omega) notElse
  rw [mark] at readCondition
  rw [closing] at readStep
  show statementStep _ _ _ _ = _
  simp only [statementStep_cons, keyword]
  unfold forStmt
  refine (bind_ok (expect_cons opening)).trans ((bind_ok readFirst).trans ?_)
  refine (bind_ok readCondition).trans ((bind_ok (expect_cons mark)).trans ?_)
  refine (bind_ok readStep).trans ((bind_ok (expect_cons closing)).trans ?_)
  exact (bind_ok readBody).trans rfl

/-! Declarations. -/

private theorem accepts_noClause (mark : semi.kind = .semicolon) : Accepts (.forClause none) [semi] i i := by
  intro n l es rest _
  unfold forInitializer
  refine (bind_ok peekKind_eq).trans ?_
  simp only [List.cons_append, List.head?_cons, Option.map_some, mark]
  rfl

private theorem accepts_variableClause (keyword : t.kind = .kwVar) (decl : Accepts (.variableDecl s) ts i j) :
    Accepts (.forClause (some s)) (t :: ts) i j := by
  intro n l es rest few
  simp only [List.cons_append, List.length_cons] at few ⊢
  unfold forInitializer
  refine (bind_ok peekKind_eq).trans ?_
  simp only [List.head?_cons, Option.map_some, keyword]
  exact (bind_ok skip_cons).trans (map_ok (decl n l es rest (by omega)))

private theorem forInitializer_expression (starts : startsExpr t.kind = true) :
    forInitializer n ⟨t :: rest, l, i, es⟩ = (some <$> expressionStmt n) ⟨t :: rest, l, i, es⟩ := by
  obtain ⟨kind, lexeme, line⟩ := t
  cases kind <;> first | rfl | simp [startsExpr] at starts

private theorem accepts_expressionClause (derived : Derives rule (.expr .expression e) ts i j)
    (inner : Accepts (.expr .expression e) ts i j) (mark : semi.kind = .semicolon) :
    Accepts (.forClause (some (.expression e))) (ts ++ [semi]) i j := by
  intro n l es rest few
  obtain ⟨t, us, rfl, starts, -⟩ := derived.expr_first
  simp only [List.append_assoc, List.cons_append, List.nil_append] at few ⊢
  rw [forInitializer_expression starts]
  exact map_ok (expressionStmt_done inner mark few)

private theorem accepts_bareVariable (named : name.kind = .identifier) (mark : semi.kind = .semicolon) :
    Accepts (.variableDecl (.declare name.ident none)) [name, semi] i i := by
  intro n l es rest _
  show variableDecl n ⟨name :: semi :: rest, l, i, es⟩ = _
  have none : initializer n ⟨semi :: rest, l, i, es⟩ = .ok none ⟨semi :: rest, l, i, es⟩ := by
    unfold initializer
    exact (bind_ok (accept_none (by simp [mark]))).trans rfl
  unfold variableDecl
  refine (bind_ok (expect_cons named)).trans ((bind_ok none).trans ?_)
  exact (bind_ok (expect_cons mark)).trans rfl

private theorem accepts_initializedVariable (named : name.kind = .identifier) (sign : equal.kind = .equal)
    (value : Accepts (.expr .expression e) ts i j) (mark : semi.kind = .semicolon) :
    Accepts (.variableDecl (.declare name.ident (some e))) (name :: equal :: (ts ++ [semi])) i j := by
  intro n l es rest few
  simp only [List.append_assoc, List.cons_append, List.nil_append, List.length_cons] at few ⊢
  have ends : Ends .expression (semi :: rest) := ends_of_kind (by simp [mark, binding])
  have some : initializer n ⟨equal :: (ts ++ semi :: rest), l, i, es⟩ =
      .ok (some e) ⟨semi :: rest, l, j, es⟩ := by
    unfold initializer
    exact (bind_ok (accept_cons sign)).trans (map_ok (value.whole (by omega) ends))
  unfold variableDecl
  refine (bind_ok (expect_cons named)).trans ((bind_ok some).trans ?_)
  exact (bind_ok (expect_cons mark)).trans rfl

/-- Nothing is dropped where the declaration is read. -/
theorem recovering_done (read : p s = .ok stmt t) : recovering p s = .ok (some stmt) t := by
  simp only [recovering, read]

private theorem accepts_variableDeclaration (keyword : t.kind = .kwVar) (decl : Accepts (.variableDecl s) ts i j) :
    Accepts (.declaration s) (t :: ts) i j := by
  intro n l es rest few _
  obtain ⟨n, rfl⟩ := Nat.exists_eq_succ_of_ne_zero (Nat.ne_zero_of_lt few)
  simp only [List.cons_append, List.length_cons] at few ⊢
  refine recovering_done ?_
  simp only [declarationStep_cons, keyword]
  exact decl (n + 1) l es rest (by omega)

private theorem accepts_functionDeclaration (keyword : t.kind = .kwFun) (decl : Accepts (.function d) ts i j) :
    Accepts (.declaration (.function d)) (t :: ts) i j := by
  intro n l es rest few _
  obtain ⟨n, rfl⟩ := Nat.exists_eq_succ_of_ne_zero (Nat.ne_zero_of_lt few)
  simp only [List.cons_append, List.length_cons] at few ⊢
  refine recovering_done ?_
  simp only [declarationStep_cons, keyword]
  exact map_ok (decl n l es rest .function (by omega))

private theorem accepts_plainClass (keyword : t.kind = .kwClass) (named : name.kind = .identifier)
    (opening : left.kind = .leftBrace) (body : Accepts (.methods ds) ts i j)
    (closing : right.kind = .rightBrace) :
    Accepts (.declaration (.classDef name.ident none ds)) (t :: name :: left :: (ts ++ [right])) i j := by
  intro n l es rest few _
  obtain ⟨n, rfl⟩ := Nat.exists_eq_succ_of_ne_zero (Nat.ne_zero_of_lt few)
  simp only [List.append_assoc, List.cons_append, List.nil_append, List.length_cons] at few ⊢
  have none : superclass ⟨left :: (ts ++ right :: rest), l, i, es⟩ =
      .ok none ⟨left :: (ts ++ right :: rest), l, i, es⟩ := by
    unfold superclass
    exact (bind_ok (accept_none (by simp [opening]))).trans rfl
  have read := body n (n + 1) l es right rest (by omega) (by omega) closing
  refine recovering_done ?_
  simp only [declarationStep_cons, keyword]
  unfold classDecl
  refine (bind_ok (expect_cons named)).trans ((bind_ok none).trans ?_)
  exact (bind_ok (expect_cons opening)).trans ((bind_ok read).trans rfl)

private theorem accepts_subclass (keyword : t.kind = .kwClass) (named : name.kind = .identifier)
    (mark : less.kind = .less) (parent : above.kind = .identifier) (opening : left.kind = .leftBrace)
    (body : Accepts (.methods ds) ts (i + 1) j) (closing : right.kind = .rightBrace) :
    Accepts (.declaration (.classDef name.ident (some ⟨i + 1, above.ident⟩) ds))
      (t :: name :: less :: above :: left :: (ts ++ [right])) i j := by
  intro n l es rest few _
  obtain ⟨n, rfl⟩ := Nat.exists_eq_succ_of_ne_zero (Nat.ne_zero_of_lt few)
  simp only [List.append_assoc, List.cons_append, List.nil_append, List.length_cons] at few ⊢
  have some : superclass ⟨less :: above :: left :: (ts ++ right :: rest), l, i, es⟩ =
      .ok (some ⟨i + 1, above.ident⟩) ⟨left :: (ts ++ right :: rest), l, i + 1, es⟩ := by
    unfold superclass
    exact (bind_ok (accept_cons mark)).trans ((bind_ok (expect_cons parent)).trans rfl)
  have read := body n (n + 1) l es right rest (by omega) (by omega) closing
  refine recovering_done ?_
  simp only [declarationStep_cons, keyword]
  unfold classDecl
  refine (bind_ok (expect_cons named)).trans ((bind_ok some).trans ?_)
  exact (bind_ok (expect_cons opening)).trans ((bind_ok read).trans rfl)

private theorem accepts_statement (derived : Derives rule (.statement s isOpen) ts i j)
    (inner : Accepts (.statement s isOpen) ts i j) : Accepts (.declaration s) ts i j := by
  intro n l es rest few notElse
  obtain ⟨n, rfl⟩ := Nat.exists_eq_succ_of_ne_zero (Nat.ne_zero_of_lt few)
  obtain ⟨t, us, rfl, starts⟩ := derived.statement_first
  have read := inner (n + 1) l es rest few fun _ => notElse
  refine recovering_done ?_
  rw [List.cons_append] at read ⊢
  rw [declarationStep_statement starts]
  exact read

/-! Bodies. -/

private theorem parameters_done (params : Parameters ts (p :: ps)) (within : (ts ++ stop :: rest).length < m)
    (closing : stop.kind = .rightParen) (short : count + (p :: ps).length ≤ most) :
    parameters m count ⟨ts ++ stop :: rest, l, i, es⟩ = .ok (p :: ps) ⟨stop :: rest, l, i, es⟩ := by
  generalize shape : p :: ps = all at params
  induction params generalizing p ps m count with
  | none => cases shape
  | one named =>
    cases shape
    obtain ⟨m, rfl⟩ := Nat.exists_eq_succ_of_ne_zero (Nat.ne_zero_of_lt within)
    simp only [List.length_cons, List.length_nil] at short
    have checked {s} : checkLength .tooManyParameters count s = .ok () s := checkLength_done (by omega)
    unfold parameters
    refine (bind_ok checked).trans ((bind_ok (expect_cons named)).trans ?_)
    exact (bind_ok (accept_none (by simp [closing]))).trans rfl
  | more named mark rest ih =>
    cases shape
    obtain ⟨m, rfl⟩ := Nat.exists_eq_succ_of_ne_zero (Nat.ne_zero_of_lt within)
    simp only [List.cons_append, List.length_cons] at within short
    have checked {s} : checkLength .tooManyParameters count s = .ok () s := checkLength_done (by omega)
    have others := @ih _ _ m (count + 1) (by omega) (by simp only [List.length_cons]; omega) rfl
    unfold parameters
    refine (bind_ok checked).trans ((bind_ok (expect_cons named)).trans ?_)
    exact (bind_ok (accept_cons mark)).trans ((bind_ok others).trans rfl)

private theorem parameterList_done (params : Parameters ts ps) (few : ps.length ≤ most)
    (within : (ts ++ stop :: rest).length < m) (closing : stop.kind = .rightParen) :
    parameterList m ⟨ts ++ stop :: rest, l, i, es⟩ = .ok ps ⟨stop :: rest, l, i, es⟩ := by
  unfold parameterList
  refine (bind_ok peekKind_eq).trans ?_
  cases params with
  | none =>
    simp only [List.nil_append, List.head?_cons, Option.map_some, closing, if_true]
    rfl
  | one named =>
    simp only [List.cons_append, List.head?_cons, Option.map_some, named, Option.some.injEq,
      reduceCtorEq, if_false]
    exact parameters_done (.one named) within closing (by simpa using few)
  | more named mark others =>
    simp only [List.cons_append, List.head?_cons, Option.map_some, named, Option.some.injEq,
      reduceCtorEq, if_false]
    exact parameters_done (.more named mark others) within closing (by simpa using few)

private theorem accepts_function (named : name.kind = .identifier) (opening : left.kind = .leftParen)
    (params : Parameters ts ps) (few : ps.length ≤ most) (closing : right.kind = .rightParen)
    (start : brace.kind = .leftBrace) (body : Accepts (.declarations ss) us i j)
    (stop : final.kind = .rightBrace) :
    Accepts (.function ⟨name.ident, ps, ss⟩)
      (name :: left :: (ts ++ right :: brace :: (us ++ [final]))) i j := by
  intro n l es rest kind within
  simp only [List.append_assoc, List.cons_append, List.nil_append, List.length_cons] at within ⊢
  have suffix : (us ++ final :: rest).length + 2 ≤ (ts ++ right :: brace :: (us ++ final :: rest)).length := by
    simp only [List.length_append, List.length_cons]
    omega
  have list {es} : parameterList (n + 1) ⟨ts ++ right :: brace :: (us ++ final :: rest), l, i, es⟩ =
      .ok ps ⟨right :: brace :: (us ++ final :: rest), l, i, es⟩ :=
    parameterList_done params few (by omega) closing
  have read := body.1 n (n + 1) l es final rest (by omega) (by omega) stop
  unfold functionDecl
  refine (bind_ok (expect_cons named)).trans ((bind_ok (expect_cons opening)).trans ?_)
  refine (bind_ok list).trans ((bind_ok (expect_cons closing)).trans ?_)
  exact (bind_ok (expect_cons start)).trans ((bind_ok read).trans rfl)

private theorem accepts_noMethods : Accepts (.methods []) [] i i := by
  intro n m l es stop rest _ within closing
  obtain ⟨m, rfl⟩ := Nat.exists_eq_succ_of_ne_zero (Nat.ne_zero_of_lt within)
  unfold methods
  refine (bind_ok peekKind_eq).trans ?_
  simp only [List.nil_append, List.head?_cons, Option.map_some, closing]
  exact (bind_ok (expect_cons closing)).trans rfl

private theorem accepts_moreMethods (derived : Derives rule (.function d) ts i j)
    (first : Accepts (.function d) ts i j) (others : Accepts (.methods ds) us j k) :
    Accepts (.methods (d :: ds)) (ts ++ us) i k := by
  intro n m l es stop rest few within closing
  obtain ⟨m, rfl⟩ := Nat.exists_eq_succ_of_ne_zero (Nat.ne_zero_of_lt within)
  rw [List.append_assoc] at few within ⊢
  have one := first n l es (us ++ stop :: rest) .method few
  have suffix : (us ++ stop :: rest).length < (ts ++ (us ++ stop :: rest)).length := by
    cases derived
    simp only [List.cons_append, List.length_cons, List.length_append]
    omega
  have more := others n m l es stop rest (by omega) (by omega) closing
  have named : (ts ++ (us ++ stop :: rest)).head?.map (·.kind) = some .identifier := by
    cases derived with
    | function named => simp [named]
  unfold methods
  refine (bind_ok peekKind_eq).trans ?_
  simp only [named]
  exact (bind_ok one).trans ((bind_ok more).trans rfl)

private theorem accepts_noDeclarations : Accepts (.declarations []) [] i i := by
  refine ⟨?_, ?_⟩
  · intro n m l es stop rest _ within closing
    obtain ⟨m, rfl⟩ := Nat.exists_eq_succ_of_ne_zero (Nat.ne_zero_of_lt within)
    unfold block
    refine (bind_ok peekKind_eq).trans ?_
    simp only [List.nil_append, List.head?_cons, Option.map_some, closing]
    exact (bind_ok (expect_cons closing)).trans rfl
  · intro n l es rest few _
    refine ⟨n, few, ?_⟩
    simp only [List.nil_append, id_map']

private theorem accepts_moreDeclarations (derived : Derives rule (.declaration s) ts i j)
    (first : Accepts (.declaration s) ts i j) (others : Derives rule (.declarations ss) us j k)
    (more : Accepts (.declarations ss) us j k) : Accepts (.declarations (s :: ss)) (ts ++ us) i k := by
  obtain ⟨t, ts, rfl, starts⟩ := derived.declaration_first
  refine ⟨?_, ?_⟩
  · intro n m l es stop rest few within closing
    obtain ⟨m, rfl⟩ := Nat.exists_eq_succ_of_ne_zero (Nat.ne_zero_of_lt within)
    rw [List.append_assoc] at few within ⊢
    have notElse : (us ++ stop :: rest).head?.map (·.kind) ≠ some .kwElse :=
      others.declarations_first (by simp [closing])
    have one := first n l es (us ++ stop :: rest) few notElse
    have suffix : (us ++ stop :: rest).length < (t :: ts ++ (us ++ stop :: rest)).length := by
      simp only [List.cons_append, List.length_cons, List.length_append]
      omega
    have read := more.1 n m l es stop rest (by omega) (by omega) closing
    have go : block (declaration n) (m + 1) ⟨t :: (ts ++ (us ++ stop :: rest)), l, i, es⟩ =
        (do
          let s ← declaration n
          let rest ← block (declaration n) m
          pure (s.toList ++ rest)) ⟨t :: (ts ++ (us ++ stop :: rest)), l, i, es⟩ := by
      obtain ⟨kind, lexeme, line⟩ := t
      cases kind <;> first | rfl | cases starts
    refine Eq.trans go ((bind_ok one).trans ((bind_ok read).trans rfl))
  · intro n l es rest few notElse
    obtain ⟨n, rfl⟩ := Nat.exists_eq_succ_of_ne_zero (Nat.ne_zero_of_lt few)
    rw [List.append_assoc] at few ⊢
    have suffix : (us ++ rest).length < (t :: ts ++ (us ++ rest)).length := by
      simp only [List.cons_append, List.length_cons, List.length_append]
      omega
    have one := first (n + 1) l es (us ++ rest) few (others.declarations_first notElse)
    obtain ⟨m, within, read⟩ := more.2 n l es rest (by omega) notElse
    refine ⟨m, within, ?_⟩
    conv => lhs; unfold program
    refine (bind_ok peek_eq).trans ((bind_ok one).trans ?_)
    show (program n >>= fun rest => pure ([s] ++ rest)) _ = _
    simp only [bind, EStateM.bind, read, Functor.map, EStateM.map]
    cases program m ⟨rest, l, k, es⟩ <;> rfl

/-- Every phrase of the grammar is read as its own tree. -/
theorem accepts_of_derives (derived : Derives .nearest phrase ts i j) : Accepts phrase ts i j := by
  induction derived with
  | literal value => exact accepts_literal value
  | this keyword => exact accepts_this keyword
  | use named => exact accepts_use named
  | super keyword mark named => exact accepts_super keyword mark named
  | group opening _ closing inner => exact accepts_group opening inner closing
  | lift tighter derived inner => exact accepts_lift tighter derived inner
  | call _ opening _ few closing callee args => exact accepts_call callee opening args few closing
  | get _ mark named object => exact accepts_get object mark named
  | sign operator _ operand => exact accepts_sign operator operand
  | join operator _ tighter _ left right => exact accepts_join operator left tighter right
  | assign named mark _ value => exact accepts_assign named mark value
  | set derived dotted named mark _ object value => exact accepts_set derived object dotted named mark value
  | noArguments => exact .inl ⟨rfl, rfl, rfl⟩
  | oneArgument derived only => exact accepts_oneArgument derived only
  | moreArguments derived mark _ first rest => exact accepts_moreArguments derived first mark rest
  | absent => exact accepts_absent
  | present derived inner => exact accepts_present derived inner
  | expression derived mark inner => exact accepts_expression derived inner mark
  | print keyword _ mark inner => exact accepts_print keyword inner mark
  | ret keyword _ mark value => exact accepts_ret keyword value mark
  | block opening _ closing body => exact accepts_block opening body closing
  | whileLoop keyword opening _ closing _ condition body =>
    exact accepts_whileLoop keyword opening condition closing body
  | ifOnly keyword opening _ closing _ condition thenPart =>
    exact accepts_ifOnly keyword opening condition closing thenPart
  | ifElse keyword opening _ closing _ attached other _ condition thenPart elsePart =>
    exact accepts_ifElse keyword opening condition closing thenPart (attached rfl) other elsePart
  | forLoop keyword opening _ _ mark _ closing _ first condition increment body =>
    exact accepts_forLoop keyword opening first condition mark increment closing body
  | noClause mark => exact accepts_noClause mark
  | variableClause keyword _ decl => exact accepts_variableClause keyword decl
  | expressionClause derived mark inner => exact accepts_expressionClause derived inner mark
  | bareVariable named mark => exact accepts_bareVariable named mark
  | initializedVariable named sign _ mark value => exact accepts_initializedVariable named sign value mark
  | variableDeclaration keyword _ decl => exact accepts_variableDeclaration keyword decl
  | functionDeclaration keyword _ decl => exact accepts_functionDeclaration keyword decl
  | plainClass keyword named opening _ closing body =>
    exact accepts_plainClass keyword named opening body closing
  | subclass keyword named mark parent opening _ closing body =>
    exact accepts_subclass keyword named mark parent opening body closing
  | statement derived inner => exact accepts_statement derived inner
  | function named opening params few closing start _ stop body =>
    exact accepts_function named opening params few closing start body stop
  | noMethods => exact accepts_noMethods
  | moreMethods derived _ first rest => exact accepts_moreMethods derived first rest
  | noDeclarations => exact accepts_noDeclarations
  | moreDeclarations derived others first rest => exact accepts_moreDeclarations derived first others rest

/-- A program of the grammar is read without complaint as its own tree. -/
theorem parse_complete {scan : Scan}
    (derived : Derives .nearest (.declarations ss) scan.tokens i j) : parse i scan = ⟨ss, [], j⟩ := by
  have few : (scan.tokens ++ []).length < scan.tokens.length + 1 := by simp
  obtain ⟨m, within, read⟩ := (accepts_of_derives derived).2 _ scan.endLine [] [] few (by simp)
  obtain ⟨m, rfl⟩ := Nat.exists_eq_succ_of_ne_zero (Nat.ne_zero_of_lt within)
  rw [List.append_nil] at read
  have done : program (m + 1) ⟨[], scan.endLine, j, []⟩ = .ok [] ⟨[], scan.endLine, j, []⟩ := by
    unfold program
    exact (bind_ok peek_eq).trans rfl
  unfold parse
  simp only [read, Functor.map, EStateM.map, done, List.append_nil]

end Lox.Parse
