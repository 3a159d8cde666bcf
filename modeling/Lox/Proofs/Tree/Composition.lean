import Lox.Proofs.Token.Scan
import Lox.Proofs.Tree.Bounds
import Lox.Proofs.Tree.Completeness

/-! Programs one after the other. A greater bound makes no difference to a parser that does not use its bound up, and
the bound of a program is never used up; so what is read after the tokens of a program depends on these tokens alone,
whether or not they can be read. -/
namespace Lox
namespace Parse

/-- One parser does all that another does, or else its bound is used up. -/
def Cut (p q : Parser α) : Prop := ∀ s, (∃ t, p s = .error .exhausted t) ∨ q s = p s

namespace Cut

variable {p q : Parser α}

private theorem refl (p : Parser α) : Cut p p := fun _ => .inr rfl

private theorem exhausted (q : Parser α) : Cut exhausted q := fun s => .inl ⟨s, rfl⟩

private theorem bind {f g : α → Parser β} (first : Cut p q) (next : ∀ a, Cut (f a) (g a)) :
    Cut (p >>= f) (q >>= g) := by
  intro s
  simp only [Bind.bind, EStateM.bind]
  rcases first s with ⟨t, used⟩ | same
  · rw [used]
    exact .inl ⟨t, rfl⟩
  · rw [same]
    cases p s with
    | ok a t => exact next a t
    | error halt t => exact .inr rfl

/-- After something that does not depend on the bound. -/
theorem next {f g : α → Parser β} (rest : ∀ a, Cut (f a) (g a)) : Cut (p >>= f) (p >>= g) := (refl p).bind rest

private theorem map (first : Cut p q) (f : α → β) : Cut (f <$> p) (f <$> q) := by
  rw [map_eq_pure_bind, map_eq_pure_bind]
  exact first.bind fun a => .refl _

/-- A parser whose bound is not used up does the same with a greater one. -/
theorem eq (cut : Cut p q) (runs : Runs p s Q) : q s = p s := by
  rcases cut s with ⟨t, used⟩ | same
  · unfold Runs at runs
    rw [used] at runs
    exact runs.elim
  · exact same

end Cut

/-! Expressions. -/

section Ladder

variable {inner inner' : Parser Expr} (inside : Cut inner inner')

include inside

private theorem primary_cut : Cut (primary inner) (primary inner') := by
  refine .next fun found => ?_
  cases found with
  | none => exact .refl _
  | some token =>
    simp only
    split
    · exact .refl _
    · split
      · exact .refl _
      · exact .refl _
      · exact .refl _
      · exact .next fun _ => inside.bind fun e => .refl _
      · exact .refl _

private theorem arguments_cut (count : Nat) (less : m ≤ k) :
    Cut (arguments inner m count) (arguments inner' k count) := by
  induction m generalizing k count with
  | zero => exact .exhausted _
  | succ m ih =>
    obtain ⟨k, rfl⟩ := Nat.exists_eq_add_one_of_ne_zero (Nat.ne_zero_of_lt less)
    refine .next fun _ => inside.bind fun e => .next fun found => ?_
    cases found with
    | none => exact .refl _
    | some comma => exact (ih (count + 1) (Nat.le_of_succ_le_succ less)).bind fun rest => .refl _

private theorem argumentList_cut (less : m ≤ k) : Cut (argumentList inner m) (argumentList inner' k) := by
  refine .next fun kind => ?_
  split
  · exact .refl _
  · exact arguments_cut inside 0 less

private theorem callTail_cut (e : Expr) (less : m ≤ k) : Cut (callTail inner m e) (callTail inner' k e) := by
  induction m generalizing k e with
  | zero => exact .exhausted _
  | succ m ih =>
    obtain ⟨k, rfl⟩ := Nat.exists_eq_add_one_of_ne_zero (Nat.ne_zero_of_lt less)
    have fewer := Nat.le_of_succ_le_succ less
    refine .next fun kind => ?_
    split
    · refine .next fun _ => (argumentList_cut inside less).bind fun args => .next fun close => ?_
      exact ih _ fewer
    · exact .next fun _ => .next fun name => ih _ fewer
    · exact .refl _

private theorem call_cut (less : m ≤ k) : Cut (call inner m) (call inner' k) :=
  (primary_cut inside).bind fun e => callTail_cut inside e less

private theorem unary_cut (less : m ≤ k) (less' : n ≤ l) : Cut (unary inner m n) (unary inner' k l) := by
  induction n generalizing l with
  | zero => exact .exhausted _
  | succ n ih =>
    obtain ⟨l, rfl⟩ := Nat.exists_eq_add_one_of_ne_zero (Nat.ne_zero_of_lt less')
    refine .next fun found => ?_
    cases found with
    | none => exact call_cut inside less
    | some sign => exact (ih (Nat.le_of_succ_le_succ less')).bind fun operand => .refl _

end Ladder

section Levels

variable {operand operand' : Parser Expr} (op : Joiner) (operands : Cut operand operand')

include operands

private theorem chain_cut (left : Expr) (less : m ≤ k) : Cut (chain op operand m left) (chain op operand' k left) := by
  induction m generalizing k left with
  | zero => exact .exhausted _
  | succ m ih =>
    obtain ⟨k, rfl⟩ := Nat.exists_eq_add_one_of_ne_zero (Nat.ne_zero_of_lt less)
    refine .next fun found => ?_
    cases found with
    | none => exact .refl _
    | some join => exact operands.bind fun right => ih _ (Nat.le_of_succ_le_succ less)

private theorem level_cut (less : m ≤ k) : Cut (level m op operand) (level k op operand') :=
  operands.bind fun left => chain_cut op operands left less

end Levels

private theorem operators_cut {inner inner' : Parser Expr} (inside : Cut inner inner') (less : m ≤ k) :
    Cut (operators inner m) (operators inner' k) := by
  iterate 6 apply level_cut _ _ less
  exact unary_cut inside less less

private theorem assignment_cut {inner inner' : Parser Expr} (inside : Cut inner inner') (less : m ≤ k) :
    Cut (assignment inner m) (assignment inner' k) := by
  refine (operators_cut inside less).bind fun target => .next fun found => ?_
  cases found with
  | none => exact .refl _
  | some equal => exact inside.bind fun value => .refl _

private theorem expression_cut (less : m ≤ k) : Cut (expression m) (expression k) := by
  induction m generalizing k with
  | zero => exact .exhausted _
  | succ m ih =>
    obtain ⟨k, rfl⟩ := Nat.exists_eq_add_one_of_ne_zero (Nat.ne_zero_of_lt less)
    exact assignment_cut (ih (Nat.le_of_succ_le_succ less)) less

private theorem expressionUnless_cut (stop : TokenKind) (less : m ≤ k) :
    Cut (expressionUnless stop m) (expressionUnless stop k) := by
  refine .next fun kind => ?_
  split
  · exact .refl _
  · exact (expression_cut less).map _

/-! Statements and declarations. -/

private theorem expressionStmt_cut (less : m ≤ k) : Cut (expressionStmt m) (expressionStmt k) :=
  (expression_cut less).bind fun _ => .refl _

private theorem initializer_cut (less : m ≤ k) : Cut (initializer m) (initializer k) := by
  refine .next fun found => ?_
  cases found with
  | none => exact .refl _
  | some equal => exact (expression_cut less).map _

private theorem variableDecl_cut (less : m ≤ k) : Cut (variableDecl m) (variableDecl k) :=
  .next fun _ => (initializer_cut less).bind fun _ => .refl _

private theorem parameters_cut (count : Nat) (less : m ≤ k) : Cut (parameters m count) (parameters k count) := by
  induction m generalizing k count with
  | zero => exact .exhausted _
  | succ m ih =>
    obtain ⟨k, rfl⟩ := Nat.exists_eq_add_one_of_ne_zero (Nat.ne_zero_of_lt less)
    refine .next fun _ => .next fun name => .next fun found => ?_
    cases found with
    | none => exact .refl _
    | some comma => exact (ih (count + 1) (Nat.le_of_succ_le_succ less)).bind fun rest => .refl _

private theorem parameterList_cut (less : m ≤ k) : Cut (parameterList m) (parameterList k) := by
  refine .next fun kind => ?_
  split
  · exact .refl _
  · exact parameters_cut 0 less

private theorem forInitializer_cut (less : m ≤ k) : Cut (forInitializer m) (forInitializer k) := by
  refine .next fun kind => ?_
  split
  · exact .refl _
  · exact .next fun _ => (variableDecl_cut less).map _
  · exact (expressionStmt_cut less).map _

private theorem printStmt_cut (less : m ≤ k) :
    Cut (printStmt m) (printStmt k) := (expression_cut less).bind fun _ => .refl _

private theorem returnStmt_cut (line : Nat) (less : m ≤ k) : Cut (returnStmt m line) (returnStmt k line) :=
  (expressionUnless_cut .semicolon less).bind fun _ => .refl _

section Bodies

variable {declaration declaration' : Parser (Option Stmt)} (declared : Cut declaration declaration')

include declared

private theorem block_cut (less : m ≤ k) : Cut (block declaration m) (block declaration' k) := by
  induction m generalizing k with
  | zero => exact .exhausted _
  | succ m ih =>
    obtain ⟨k, rfl⟩ := Nat.exists_eq_add_one_of_ne_zero (Nat.ne_zero_of_lt less)
    refine .next fun kind => ?_
    split
    · exact .refl _
    · exact .refl _
    · exact declared.bind fun stmt => (ih (Nat.le_of_succ_le_succ less)).bind fun rest => .refl _

private theorem functionDecl_cut (kind : FunctionKind) (less : m ≤ k) :
    Cut (functionDecl declaration m kind) (functionDecl declaration' k kind) := by
  refine .next fun name => .next fun _ => (parameterList_cut less).bind fun params => ?_
  exact .next fun _ => .next fun _ => (block_cut declared less).bind fun body => .refl _

private theorem methods_cut (less : m ≤ k) (less' : n ≤ l) :
    Cut (methods declaration m n) (methods declaration' k l) := by
  induction n generalizing l with
  | zero => exact .exhausted _
  | succ n ih =>
    obtain ⟨l, rfl⟩ := Nat.exists_eq_add_one_of_ne_zero (Nat.ne_zero_of_lt less')
    refine .next fun kind => ?_
    split
    · exact .refl _
    · exact .refl _
    · refine (functionDecl_cut declared .method less).bind fun decl => ?_
      exact (ih (Nat.le_of_succ_le_succ less')).bind fun rest => .refl _

private theorem classDecl_cut (less : m ≤ k) : Cut (classDecl declaration m) (classDecl declaration' k) := by
  refine .next fun name => .next fun superclass => .next fun _ => ?_
  exact (methods_cut declared less less).bind fun decls => .refl _

end Bodies

section Steps

variable {self self' : Parser Stmt} (itself : Cut self self')

include itself

private theorem forStmt_cut (less : m ≤ k) : Cut (forStmt self m) (forStmt self' k) := by
  refine .next fun _ => (forInitializer_cut less).bind fun first => ?_
  refine (expressionUnless_cut .semicolon less).bind fun condition => .next fun _ => ?_
  refine (expressionUnless_cut .rightParen less).bind fun increment => .next fun _ => ?_
  exact itself.bind fun body => .refl _

private theorem ifStmt_cut (less : m ≤ k) : Cut (ifStmt self m) (ifStmt self' k) := by
  refine .next fun _ => (expression_cut less).bind fun condition => .next fun _ => ?_
  refine itself.bind fun thenBranch => .next fun found => ?_
  cases found with
  | none => exact .refl _
  | some orElse => exact itself.bind fun elseBranch => .refl _

private theorem whileStmt_cut (less : m ≤ k) : Cut (whileStmt self m) (whileStmt self' k) := by
  refine .next fun _ => (expression_cut less).bind fun condition => .next fun _ => ?_
  exact itself.bind fun body => .refl _

variable {declaration declaration' : Parser (Option Stmt)} (declared : Cut declaration declaration')

include declared

private theorem statementStep_cut (less : m ≤ k) :
    Cut (statementStep self declaration m) (statementStep self' declaration' k) := by
  refine .next fun found => ?_
  cases found with
  | none => exact expressionStmt_cut less
  | some token =>
    simp only
    split
    · exact .next fun _ => forStmt_cut itself less
    · exact .next fun _ => ifStmt_cut itself less
    · exact .next fun _ => printStmt_cut less
    · exact .next fun _ => returnStmt_cut token.line less
    · exact .next fun _ => whileStmt_cut itself less
    · exact .next fun _ => (block_cut declared less).map _
    · exact expressionStmt_cut less

private theorem declarationStep_cut (less : m ≤ k) :
    Cut (declarationStep self declaration m) (declarationStep self' declaration' k) := by
  refine .next fun kind => ?_
  split
  · exact .next fun _ => classDecl_cut declared less
  · exact .next fun _ => (functionDecl_cut declared .function less).map _
  · exact .next fun _ => variableDecl_cut less
  · exact statementStep_cut itself declared less

end Steps

/-- Recovery looks at nothing but the tokens that are left. -/
theorem recovering_cut {p q : Parser Stmt} (cut : Cut p q) : Cut (recovering p) (recovering q) := by
  intro s
  unfold recovering
  rcases cut s with ⟨t, used⟩ | same
  · rw [used]
    exact .inl ⟨t, rfl⟩
  · rw [same]
    exact .inr rfl

private theorem statement_declaration_cut (less : m ≤ k) :
    Cut (statement m) (statement k) ∧ Cut (declaration m) (declaration k) := by
  induction m generalizing k with
  | zero => exact ⟨.exhausted _, .exhausted _⟩
  | succ m ih =>
    obtain ⟨k, rfl⟩ := Nat.exists_eq_add_one_of_ne_zero (Nat.ne_zero_of_lt less)
    obtain ⟨itself, declared⟩ := ih (Nat.le_of_succ_le_succ less)
    exact ⟨statementStep_cut itself declared less, recovering_cut (declarationStep_cut itself declared less)⟩

private theorem program_cut (less : m ≤ k) : Cut (program m) (program k) := by
  induction m generalizing k with
  | zero => exact .exhausted _
  | succ m ih =>
    obtain ⟨k, rfl⟩ := Nat.exists_eq_add_one_of_ne_zero (Nat.ne_zero_of_lt less)
    refine .next fun found => ?_
    cases found with
    | none => exact .refl _
    | some token =>
      refine (statement_declaration_cut less).2.bind fun stmt => ?_
      exact (ih (Nat.le_of_succ_le_succ less)).bind fun rest => .refl _

/-- A bound above the number of tokens is as good as any other. -/
theorem program_bound (enough : s.tokens.length < n) : program n s = program (s.tokens.length + 1) s := by
  exact (program_cut enough).eq (program_runs _ (Nat.lt_succ_self _))

/-- A program is read to its end, whatever its errors. -/
theorem program_ends (s : State) : ∃ ss t, program (s.tokens.length + 1) s = .ok ss t := by
  have runs := program_runs (s := s) _ (Nat.lt_succ_self _)
  unfold Runs at runs
  cases ran : program (s.tokens.length + 1) s with
  | ok ss t => exact ⟨ss, t, rfl⟩
  | error halt t =>
    rw [ran] at runs
    cases halt with
    | syntaxError => exact absurd ran (Cursor.program_recovers _ _ _)
    | exhausted => exact runs.elim

/-- Reading goes on after the tokens of a program as if it had started there. -/
theorem program_append (derived : Grammar.Derives .nearest (.declarations ss) ts i j)
    (other : rest.head?.map (·.kind) ≠ some .kwElse) (line : Nat) (errors : List StaticError) :
    program ((ts ++ rest).length + 1) ⟨ts ++ rest, line, i, errors⟩ =
      ((ss ++ ·) <$> program (rest.length + 1)) ⟨rest, line, j, errors⟩ := by
  obtain ⟨m, enough, read⟩ := (accepts_of_derives derived).2 _ line errors rest (Nat.lt_succ_self _) other
  have same := program_bound (s := ⟨rest, line, j, errors⟩) enough
  rw [read]
  simp only [Functor.map, EStateM.map, same]

end Parse

/-- Parsing is compositional. What follows a program that can be read has no influence on how it is read, unless it
starts with an else, and is itself read as it would be alone, with node identities counting on: the trees are those of
the first and then those of the second, and the errors are those of the second, with their recovery. -/
theorem parsing_is_compositional {a b : Scan} {lastId : NodeId} (clean : (parse lastId a).errors = [])
    (other : b.tokens.head?.map (·.kind) ≠ some .kwElse) :
    let first := parse lastId a
    let second := parse first.lastId b
    parse lastId (a.append b) = ⟨first.statements ++ second.statements, second.errors, second.lastId⟩ := by
  intro first second
  have read := Parse.program_append (Parse.parse_sound lastId a clean) other b.endLine []
  obtain ⟨ss, t, ends⟩ := Parse.program_ends ⟨b.tokens, b.endLine, first.lastId, []⟩
  have alone : second = ⟨ss, t.errors, t.lastId⟩ := by simp only [second, parse, ends]
  rw [alone, parse, Scan.append, read, Parse.map_ok ends]

/-- The first program ends in a conditional that an else could go on with; the second cannot be read at first and can
after its first semicolon. -/
theorem parsing_is_compositional_after_conditional :
    let a := scan (Text.ofString "a = 1; if (a) print a;")
    let b := scan (Text.ofString "var; \x7b print c; \x7d")
    (parse 7 a).errors = [] ∧ (parse 7 a).statements.length = 2 ∧ (parse 7 a).lastId = 11 ∧
      (parse 11 b).errors.map (·.cause) = [.expectVariableName] ∧ (parse 11 b).statements.length = 1 ∧
      parse 7 (a.append b) =
        ⟨(parse 7 a).statements ++ (parse 11 b).statements, (parse 11 b).errors, (parse 11 b).lastId⟩ := by
  intro a b
  have clean : (parse 7 a).errors = [] := by decide +kernel
  have left : (parse 7 a).lastId = 11 := by decide +kernel
  have joined := parsing_is_compositional clean (b := b) (by decide +kernel)
  simp only [left] at joined
  exact ⟨clean, by decide +kernel, left, by decide +kernel, by decide +kernel, joined⟩

end Lox
