import Lox.Proofs.Tree.Nodes
import Lox.Proofs.Tree.Soundness

/-! How nodes are numbered, whether or not the program can be read. Every identity in what a parser
returns was handed out while it ran, and none occurs twice. A parser that starts with identities further
up reads the same tokens in the same way, and its tree differs in the identities only. -/
namespace Lox

/-! Trees with other identities. -/

def Reference.renumber (f : NodeId → NodeId) (ref : Reference) : Reference := { ref with id := f ref.id }

mutual

/-- An expression with other identities for its nodes. -/
def Expr.renumber (f : NodeId → NodeId) : Expr → Expr
  | .literal value => .literal value
  | .group inner => .group (inner.renumber f)
  | .unary op line operand => .unary op line (operand.renumber f)
  | .binary op line left right => .binary op line (left.renumber f) (right.renumber f)
  | .logical op left right => .logical op (left.renumber f) (right.renumber f)
  | .use ref => .use (ref.renumber f)
  | .assign ref value => .assign (ref.renumber f) (value.renumber f)
  | .call callee arguments line => .call (callee.renumber f) (Expr.renumberAll f arguments) line
  | .get object name => .get (object.renumber f) name
  | .set object name value => .set (object.renumber f) name (value.renumber f)
  | .self id line => .self (f id) line
  | .superMethod id line method => .superMethod (f id) line method

def Expr.renumberAll (f : NodeId → NodeId) : List Expr → List Expr
  | [] => []
  | e :: rest => e.renumber f :: Expr.renumberAll f rest

end

mutual

/-- A statement with other identities for its nodes. -/
def Stmt.renumber (f : NodeId → NodeId) : Stmt → Stmt
  | .expression e => .expression (e.renumber f)
  | .print e => .print (e.renumber f)
  | .declare name none => .declare name none
  | .declare name (some e) => .declare name (some (e.renumber f))
  | .block body => .block (Stmt.renumberAll f body)
  | .branch condition thenBranch none => .branch (condition.renumber f) (thenBranch.renumber f) none
  | .branch condition thenBranch (some elseBranch) =>
    .branch (condition.renumber f) (thenBranch.renumber f) (some (elseBranch.renumber f))
  | .loop condition body => .loop (condition.renumber f) (body.renumber f)
  | .function decl => .function (decl.renumber f)
  | .ret line none => .ret line none
  | .ret line (some e) => .ret line (some (e.renumber f))
  | .classDef name none methods => .classDef name none (FunctionDecl.renumberAll f methods)
  | .classDef name (some superclass) methods =>
    .classDef name (some (superclass.renumber f)) (FunctionDecl.renumberAll f methods)

def Stmt.renumberAll (f : NodeId → NodeId) : List Stmt → List Stmt
  | [] => []
  | s :: rest => s.renumber f :: Stmt.renumberAll f rest

def FunctionDecl.renumber (f : NodeId → NodeId) : FunctionDecl → FunctionDecl
  | ⟨name, params, body⟩ => ⟨name, params, Stmt.renumberAll f body⟩

def FunctionDecl.renumberAll (f : NodeId → NodeId) : List FunctionDecl → List FunctionDecl
  | [] => []
  | decl :: rest => decl.renumber f :: FunctionDecl.renumberAll f rest

end

def Code.renumber (f : NodeId → NodeId) : Code → Code
  | .expr e => .expr (e.renumber f)
  | .exprs es => .exprs (Expr.renumberAll f es)
  | .stmt s => .stmt (s.renumber f)
  | .stmts ss => .stmts (Stmt.renumberAll f ss)
  | .function decl => .function (decl.renumber f)
  | .functions decls => .functions (FunctionDecl.renumberAll f decls)

theorem Stmt.idsAll_append (ss ss' : List Stmt) :
    Stmt.idsAll (ss ++ ss') = Stmt.idsAll ss ++ Stmt.idsAll ss' := by
  induction ss with
  | nil => rfl
  | cons s rest ih => simp only [List.cons_append, Stmt.idsAll, ih, List.append_assoc]

/-- What parsers return: it has identities, and a copy with other ones. -/
class Numbered (α : Type) where
  ids : α → List NodeId
  renumber : (NodeId → NodeId) → α → α

export Numbered (ids renumber)

instance : Numbered Expr := ⟨Expr.ids, Expr.renumber⟩
instance : Numbered (List Expr) := ⟨Expr.idsAll, Expr.renumberAll⟩
instance : Numbered Stmt := ⟨Stmt.ids, Stmt.renumber⟩
instance : Numbered (List Stmt) := ⟨Stmt.idsAll, Stmt.renumberAll⟩
instance : Numbered FunctionDecl := ⟨FunctionDecl.ids, FunctionDecl.renumber⟩
instance : Numbered (List FunctionDecl) := ⟨FunctionDecl.idsAll, FunctionDecl.renumberAll⟩
instance : Numbered Reference := ⟨fun ref => [ref.id], Reference.renumber⟩
instance [Numbered α] : Numbered (Option α) := ⟨fun a => a.elim [] ids, fun f a => a.map (renumber f)⟩

/-- The identities above `base` are moved up, those of earlier nodes stay. -/
def moved (base δ node : Nat) : Nat := if node ≤ base then node else node + δ

private theorem moved_above (above : base < node) : moved base δ node = node + δ := if_neg (Nat.not_le.2 above)

theorem moved_injective (base δ : Nat) {i j : Nat} (same : moved base δ i = moved base δ j) : i = j := by
  unfold moved at same
  split at same <;> split at same <;> omega

/-- Some of the identities. -/
theorem Fresh.part (fresh : Fresh i j xs) (same : xs.Perm (ys ++ rest)) : Fresh i j ys := by
  have all := fresh.reorder same
  exact ⟨all.ordered, (List.nodup_append.1 all.distinct).1,
    fun id member => all.above id (List.mem_append_left _ member),
    fun id member => all.within id (List.mem_append_left _ member)⟩

namespace Parse
open Grammar

/-- The state with identities further up. -/
def State.ahead (s : State) (δ : Nat) : State := { s with lastId := s.lastId + δ }

section

variable {base δ : Nat}

/-- A parser that returns no nodes does the same with identities further up. -/
def Steps (δ : Nat) (p : Parser α) : Prop :=
  ∀ s, match p s with
    | .ok a t => p (s.ahead δ) = .ok a (t.ahead δ) ∧ s.lastId ≤ t.lastId
    | .error halt t => p (s.ahead δ) = .error halt (t.ahead δ) ∧ s.lastId ≤ t.lastId

/-- Two parsers, of which the second starts with identities further up, where identities `xs` have been
handed out before. What the first returns has identities handed out since, apart from those in `xs`; the
second returns the same with the identities moved. -/
def Numbers (base δ : Nat) [Numbered α] (xs : List NodeId) (p q : Parser α) : Prop :=
  ∀ i s, Fresh i s.lastId xs → base ≤ s.lastId →
    match p s with
    | .ok a t => q (s.ahead δ) = .ok (renumber (moved base δ) a) (t.ahead δ) ∧ s.lastId ≤ t.lastId ∧
        Fresh i t.lastId (ids a)
    | .error halt t => q (s.ahead δ) = .error halt (t.ahead δ) ∧ s.lastId ≤ t.lastId

namespace Steps

private theorem pure (a : α) : Steps δ (pure a) := fun _ => ⟨rfl, Nat.le_refl _⟩

private theorem throw (halt : Halt) : Steps δ (throw halt : Parser α) := fun _ => ⟨rfl, Nat.le_refl _⟩

private theorem bind {p : Parser α} {f : α → Parser β} (first : Steps δ p) (next : ∀ a, Steps δ (f a)) :
    Steps δ (p >>= f) := by
  intro s
  have here := first s
  simp only [Bind.bind, EStateM.bind]
  cases ran : p s with
  | error halt t =>
    rw [ran] at here
    simpa only [here.1, true_and] using here.2
  | ok a t =>
    rw [ran] at here
    have there := next a t
    simp only [here.1]
    cases last : f a t with
    | ok b u =>
      rw [last] at there
      exact ⟨there.1, Nat.le_trans here.2 there.2⟩
    | error halt u =>
      rw [last] at there
      exact ⟨there.1, Nat.le_trans here.2 there.2⟩

end Steps

private theorem peek_steps : Steps δ peek := fun _ => ⟨rfl, Nat.le_refl _⟩

private theorem peekKind_steps : Steps δ peekKind := fun _ => ⟨rfl, Nat.le_refl _⟩

private theorem skip_steps : Steps δ skip := fun _ => ⟨rfl, Nat.le_refl _⟩

private theorem reportAt_steps : Steps δ (reportAt cause token) := fun _ => ⟨rfl, Nat.le_refl _⟩

private theorem report_steps : Steps δ (report cause) := peek_steps.bind fun _ => reportAt_steps

private theorem fail_steps : Steps δ (fail cause : Parser α) := report_steps.bind fun _ => .throw _

private theorem acceptBy_steps {f : Token → Option α} : Steps δ (acceptBy f) := by
  rintro ⟨tokens, endLine, lastId, errors⟩
  cases tokens with
  | nil => exact ⟨rfl, Nat.le_refl _⟩
  | cons token rest =>
    cases chosen : f token with
    | none => simp [acceptBy, State.ahead, chosen]
    | some a => simp [acceptBy, State.ahead, chosen]

private theorem accept_steps : Steps δ (accept kind) := acceptBy_steps

private theorem expect_steps : Steps δ (expect kind cause) := by
  refine accept_steps.bind fun found => ?_
  cases found with
  | none => exact fail_steps
  | some token => exact .pure token

private theorem checkLength_steps : Steps δ (checkLength cause count) := by
  unfold checkLength
  split
  · exact report_steps
  · exact .pure ()

private theorem parameters_steps (m count : Nat) : Steps δ (parameters m count) := by
  induction m generalizing count with
  | zero => exact .throw _
  | succ m ih =>
    refine checkLength_steps.bind fun _ => expect_steps.bind fun name => accept_steps.bind fun found => ?_
    cases found with
    | none => exact .pure _
    | some comma => exact (ih _).bind fun rest => .pure _

private theorem parameterList_steps : Steps δ (parameterList bound) := by
  refine peekKind_steps.bind fun next => ?_
  split
  · exact .pure _
  · exact parameters_steps bound 0

namespace Numbers

variable [Numbered α] [Numbered β]

/-- What is returned has the identities handed out before, in some order. -/
theorem pure {a b : α} (same : xs.Perm (ids a)) (copy : b = renumber (moved base δ) a) :
    Numbers base δ xs (pure a) (pure b) := by
  intro i s fresh _
  exact ⟨copy ▸ rfl, Nat.le_refl _, fresh.reorder same⟩

private theorem throw (halt : Halt) : Numbers base δ xs (throw halt : Parser α) (throw halt) :=
  fun _ _ _ _ => ⟨rfl, Nat.le_refl _⟩

private theorem fail (cause : StaticCause) : Numbers base δ xs (fail cause : Parser α) (fail cause) := by
  intro i s _ _
  exact fail_steps s

/-- More identities may have been handed out before. -/
theorem part {p q : Parser α} (numbers : Numbers base δ ys p q) (same : xs.Perm (ys ++ rest)) :
    Numbers base δ xs p q :=
  fun i s fresh later => numbers i s (fresh.part same) later

/-- After a parser that returns no nodes. -/
theorem after {p : Parser γ} {f g : γ → Parser α} (first : Steps δ p)
    (next : ∀ c, Numbers base δ xs (f c) (g c)) : Numbers base δ xs (p >>= f) (p >>= g) := by
  intro i s fresh later
  have here := first s
  simp only [Bind.bind, EStateM.bind]
  cases ran : p s with
  | error halt t =>
    rw [ran] at here
    simpa only [here.1, true_and] using here.2
  | ok c t =>
    rw [ran] at here
    have grown : Fresh i t.lastId xs :=
      ⟨Nat.le_trans fresh.ordered here.2, fresh.distinct, fresh.above,
        fun id member => Nat.le_trans (fresh.within id member) here.2⟩
    have there := next c i t grown (Nat.le_trans later here.2)
    simp only [here.1]
    cases last : f c t with
    | ok a u =>
      rw [last] at there
      exact ⟨there.1, Nat.le_trans here.2 there.2.1, there.2.2⟩
    | error halt u =>
      rw [last] at there
      exact ⟨there.1, Nat.le_trans here.2 there.2⟩

/-- After a parser whose nodes become part of the tree. -/
theorem bind {p q : Parser β} {f g : β → Parser α} (first : Numbers base δ [] p q)
    (next : ∀ b, Numbers base δ (xs ++ ids b) (f b) (g (renumber (moved base δ) b))) :
    Numbers base δ xs (p >>= f) (q >>= g) := by
  intro i s fresh later
  have here := first s.lastId s (.none _) later
  simp only [Bind.bind, EStateM.bind]
  cases ran : p s with
  | error halt t =>
    rw [ran] at here
    simpa only [here.1, true_and] using here.2
  | ok b t =>
    rw [ran] at here
    have there := next b i t (fresh.append here.2.2) (Nat.le_trans later here.2.1)
    simp only [here.1]
    cases last : f b t with
    | ok a u =>
      rw [last] at there
      exact ⟨there.1, Nat.le_trans here.2.1 there.2.1, there.2.2⟩
    | error halt u =>
      rw [last] at there
      exact ⟨there.1, Nat.le_trans here.2.1 there.2⟩

private theorem map {p q : Parser β} {f g : β → α} (first : Numbers base δ [] p q)
    (same : ∀ b, (ids b).Perm (ids (f b)))
    (copy : ∀ b, g (renumber (moved base δ) b) = renumber (moved base δ) (f b)) :
    Numbers base δ [] (f <$> p) (g <$> q) := by
  rw [map_eq_pure_bind, map_eq_pure_bind]
  exact bind first fun b => pure (same b) (copy b)

/-- After a new identity. -/
theorem fresh {f g : NodeId → Parser α}
    (next : ∀ id, Numbers base δ (xs ++ [id]) (f id) (g (moved base δ id))) :
    Numbers base δ xs (freshId >>= f) (freshId >>= g) := by
  intro i s fresh later
  have there := next (s.lastId + 1) i { s with lastId := s.lastId + 1 } (fresh.append (.next _))
    (Nat.le_succ_of_le later)
  have ahead : s.lastId + δ + 1 = moved base δ (s.lastId + 1) := by
    rw [moved_above (Nat.lt_succ_of_le later), Nat.add_right_comm]
  have both : (freshId >>= g) (s.ahead δ) =
      g (moved base δ (s.lastId + 1)) (State.ahead { s with lastId := s.lastId + 1 } δ) := by
    simp only [Bind.bind, EStateM.bind, freshId, State.ahead, ahead]
    rw [← ahead, Nat.add_right_comm]
  show match f (s.lastId + 1) { s with lastId := s.lastId + 1 } with
    | .ok a t => _
    | .error halt t => _
  rw [both]
  cases last : f (s.lastId + 1) { s with lastId := s.lastId + 1 } with
  | ok a t =>
    rw [last] at there
    exact ⟨there.1, Nat.le_of_succ_le there.2.1, there.2.2⟩
  | error halt t =>
    rw [last] at there
    exact ⟨there.1, Nat.le_of_succ_le there.2⟩

/-- After a token that decides what follows. -/
theorem accepted {f : Token → Option γ} {g h : Option γ → Parser α}
    (none : Numbers base δ xs (g none) (h none))
    (some : ∀ token c, f token = some c → Numbers base δ xs (g (some c)) (h (some c))) :
    Numbers base δ xs (acceptBy f >>= g) (acceptBy f >>= h) := by
  rintro i ⟨tokens, endLine, lastId, errors⟩ fresh later
  cases tokens with
  | nil => exact none i _ fresh later
  | cons token rest =>
    cases chosen : f token with
    | none =>
      have there := none i ⟨token :: rest, endLine, lastId, errors⟩ fresh later
      simpa only [Bind.bind, EStateM.bind, acceptBy, State.ahead, chosen] using there
    | some c =>
      have there := some token c chosen i ⟨rest, endLine, lastId, errors⟩ fresh later
      simpa only [Bind.bind, EStateM.bind, acceptBy, State.ahead, chosen] using there

end Numbers

/-! Expressions. -/

section Ladder

variable {inner : Parser Expr} (innerNumbers : Numbers base δ [] inner inner)

include innerNumbers

private theorem primary_numbers : Numbers base δ [] (primary inner) (primary inner) := by
  refine .after peek_steps fun found => ?_
  cases found with
  | none => exact .fail _
  | some token =>
    simp only
    split
    · exact .after skip_steps fun _ => .pure (.refl _) rfl
    · split
      · exact .after skip_steps fun _ => .after expect_steps fun dot => .after expect_steps fun name =>
          .fresh fun node => .pure (.refl _) rfl
      · exact .after skip_steps fun _ => .fresh fun node => .pure (.refl _) rfl
      · exact .after skip_steps fun _ => .fresh fun node => .pure (.refl _) rfl
      · exact .after skip_steps fun _ => .bind innerNumbers fun e => .after expect_steps fun right =>
          .pure (.refl _) rfl
      · exact .fail _

private theorem arguments_numbers (m count : Nat) :
    Numbers base δ [] (arguments inner m count) (arguments inner m count) := by
  induction m generalizing count with
  | zero => exact .throw _
  | succ m ih =>
    refine .after checkLength_steps fun _ => .bind innerNumbers fun e => .after accept_steps fun found => ?_
    cases found with
    | none => exact .pure (by simp [ids, Expr.idsAll]) rfl
    | some comma => exact .bind (ih _) fun rest => .pure (.refl _) rfl

private theorem argumentList_numbers (m : Nat) :
    Numbers base δ [] (argumentList inner m) (argumentList inner m) := by
  refine .after peekKind_steps fun next => ?_
  split
  · exact .pure (.refl _) rfl
  · exact arguments_numbers innerNumbers m 0

/-- What follows an expression is joined to it. -/
theorem callTail_numbers (m : Nat) (e : Expr) :
    Numbers base δ e.ids (callTail inner m e) (callTail inner m (e.renumber (moved base δ))) := by
  induction m generalizing e with
  | zero => exact .throw _
  | succ m ih =>
    refine .after peekKind_steps fun next => ?_
    split
    · refine .after skip_steps fun _ => .bind (argumentList_numbers innerNumbers _) fun args =>
        .after expect_steps fun close => ?_
      exact ih (.call e args close.line)
    · refine .after skip_steps fun _ => .after expect_steps fun name => ?_
      exact ih (.get e name.ident)
    · exact .pure (.refl _) rfl

private theorem call_numbers (m : Nat) : Numbers base δ [] (call inner m) (call inner m) :=
  .bind (primary_numbers innerNumbers) fun e => callTail_numbers innerNumbers m e

private theorem unary_numbers (m n : Nat) : Numbers base δ [] (unary inner m n) (unary inner m n) := by
  induction n with
  | zero => exact .throw _
  | succ n ih =>
    refine .after acceptBy_steps fun found => ?_
    cases found with
    | none => exact call_numbers innerNumbers m
    | some op => exact .bind ih fun e => .pure (.refl _) rfl

end Ladder

/-- The sides of an operator keep their identities. -/
theorem joiner_numbers (chosen : joiner rank token = some join) (left right : Expr) :
    (join left right).ids = left.ids ++ right.ids ∧
      ∀ f, (join left right).renumber f = join (left.renumber f) (right.renumber f) := by
  obtain ⟨node, operator, rfl⟩ := Option.map_eq_some_iff.mp chosen
  obtain ⟨op, rfl⟩ | ⟨op, rfl⟩ := Rank.join?_node operator
  · exact ⟨rfl, fun _ => rfl⟩
  · exact ⟨rfl, fun _ => rfl⟩

private theorem chain_numbers (operand : Numbers base δ [] p p) (m : Nat) (left : Expr) :
    Numbers base δ left.ids (chain (joiner rank) p m left)
      (chain (joiner rank) p m (left.renumber (moved base δ))) := by
  induction m generalizing left with
  | zero => exact .throw _
  | succ m ih =>
    refine .accepted (.pure (.refl _) rfl) fun token join chosen => .bind operand fun right => ?_
    obtain ⟨both, copy⟩ := joiner_numbers chosen left right
    have rest := ih (join left right)
    rw [both, copy] at rest
    exact rest

private theorem level_numbers (operand : Numbers base δ [] p p) (m : Nat) :
    Numbers base δ [] (level m (joiner rank) p) (level m (joiner rank) p) :=
  .bind operand fun left => chain_numbers operand m left

private theorem operators_numbers {inner : Parser Expr} (innerNumbers : Numbers base δ [] inner inner) (m : Nat) :
    Numbers base δ [] (operators inner m) (operators inner m) := by
  unfold operators
  rw [orOp_eq, andOp_eq, equalityOp_eq, comparisonOp_eq, termOp_eq, factorOp_eq]
  refine level_numbers ?_ m
  refine level_numbers ?_ m
  refine level_numbers ?_ m
  refine level_numbers ?_ m
  refine level_numbers ?_ m
  refine level_numbers ?_ m
  exact unary_numbers innerNumbers m m

/-- A variable that turns out to be assigned to has used up an identity of its own. -/
theorem assignment_numbers {inner : Parser Expr} (innerNumbers : Numbers base δ [] inner inner) (m : Nat) :
    Numbers base δ [] (assignment inner m) (assignment inner m) := by
  refine .bind (operators_numbers innerNumbers m) fun target => .after accept_steps fun found => ?_
  cases found with
  | none => exact .pure (.refl _) rfl
  | some equal =>
    refine .bind innerNumbers fun value => ?_
    cases target with
    | use ref =>
      refine .fresh fun node => ?_
      have own : ([ref.id] ++ value.ids ++ [node]).Perm (value.ids ++ [node] ++ [ref.id]) := by
        rw [List.append_assoc]
        exact List.perm_append_comm
      exact Numbers.part (.pure (.refl _) rfl) own
    | get object name => exact .pure List.perm_append_comm rfl
    | _ => exact .after reportAt_steps fun _ => Numbers.part (.pure (.refl _) rfl) (.refl _)

private theorem expression_numbers (n : Nat) : Numbers base δ [] (expression n) (expression n) := by
  induction n with
  | zero => exact .throw _
  | succ n ih => exact assignment_numbers ih (n + 1)

/-! Statements. -/

private theorem expressionUnless_numbers :
    Numbers base δ [] (expressionUnless stop bound) (expressionUnless stop bound) := by
  refine .after peekKind_steps fun next => ?_
  split
  · exact .pure (.refl _) rfl
  · exact .map (expression_numbers bound) (fun _ => .refl _) fun _ => rfl

private theorem expressionStmt_numbers : Numbers base δ [] (expressionStmt bound) (expressionStmt bound) :=
  .bind (expression_numbers bound) fun _ => .after expect_steps fun _ => .pure (.refl _) rfl

private theorem initializer_numbers : Numbers base δ [] (initializer bound) (initializer bound) := by
  refine .after accept_steps fun found => ?_
  cases found with
  | none => exact .pure (.refl _) rfl
  | some equal => exact .map (expression_numbers bound) (fun _ => .refl _) fun _ => rfl

private theorem variableDecl_numbers : Numbers base δ [] (variableDecl bound) (variableDecl bound) := by
  refine .after expect_steps fun name => .bind initializer_numbers fun init => .after expect_steps fun semi => ?_
  cases init with
  | none => exact .pure (.refl _) rfl
  | some e => exact .pure (.refl _) rfl

private theorem superclass_numbers : Numbers base δ [] superclass superclass := by
  refine .after accept_steps fun found => ?_
  cases found with
  | none => exact .pure (.refl _) rfl
  | some less => exact .after expect_steps fun _ => .fresh fun _ => .pure (.refl _) rfl

section Bodies

variable {declaration : Parser (Option Stmt)} (declarationNumbers : Numbers base δ [] declaration declaration)

include declarationNumbers

private theorem block_numbers (m : Nat) : Numbers base δ [] (block declaration m) (block declaration m) := by
  have closing : Numbers base δ []
      (expect .rightBrace .expectBraceAfterBlock >>= fun _ => (pure [] : Parser (List Stmt)))
      (expect .rightBrace .expectBraceAfterBlock >>= fun _ => pure []) :=
    .after expect_steps fun _ => .pure (.refl _) rfl
  induction m with
  | zero => exact .throw _
  | succ m ih =>
    refine .after peekKind_steps fun next => ?_
    split
    · exact closing
    · exact closing
    · refine .bind declarationNumbers fun found => .bind ih fun rest => ?_
      cases found with
      | none => exact .pure (.refl _) rfl
      | some s => exact .pure (.refl _) rfl

private theorem functionDecl_numbers :
    Numbers base δ [] (functionDecl declaration bound kind) (functionDecl declaration bound kind) :=
  .after expect_steps fun _ => .after expect_steps fun _ => .after parameterList_steps fun _ =>
    .after expect_steps fun _ => .after expect_steps fun _ =>
      .bind (block_numbers declarationNumbers bound) fun _ => .pure (.refl _) rfl

private theorem methods_numbers (m : Nat) :
    Numbers base δ [] (methods declaration bound m) (methods declaration bound m) := by
  have closing : Numbers base δ []
      (expect .rightBrace .expectBraceAfterClassBody >>= fun _ => (pure [] : Parser (List FunctionDecl)))
      (expect .rightBrace .expectBraceAfterClassBody >>= fun _ => pure []) :=
    .after expect_steps fun _ => .pure (.refl _) rfl
  induction m with
  | zero => exact .throw _
  | succ m ih =>
    refine .after peekKind_steps fun next => ?_
    split
    · exact closing
    · exact closing
    · exact .bind (functionDecl_numbers declarationNumbers) fun decl => .bind ih fun rest => .pure (.refl _) rfl

private theorem classDecl_numbers :
    Numbers base δ [] (classDecl declaration bound) (classDecl declaration bound) := by
  refine .after expect_steps fun name => .bind superclass_numbers fun parent => .after expect_steps fun left =>
    .bind (methods_numbers declarationNumbers bound) fun decls => ?_
  cases parent with
  | none => exact .pure (.refl _) rfl
  | some ref => exact .pure (.refl _) rfl

end Bodies

private theorem forInitializer_numbers : Numbers base δ [] (forInitializer bound) (forInitializer bound) := by
  refine .after peekKind_steps fun next => ?_
  split
  · exact .after skip_steps fun _ => .pure (.refl _) rfl
  · exact .after skip_steps fun _ => .map variableDecl_numbers (fun _ => .refl _) fun _ => rfl
  · exact .map expressionStmt_numbers (fun _ => .refl _) fun _ => rfl

private theorem forLoop_renumber (f : NodeId → NodeId) (init : Option Stmt) (condition step : Option Expr)
    (body : Stmt) :
    (Stmt.forLoop init condition step body).renumber f =
      .forLoop (renumber f init) (renumber f condition) (renumber f step) (body.renumber f) := by
  cases init <;> cases condition <;> cases step <;> rfl

section Statements

variable {self : Parser Stmt} (selfNumbers : Numbers base δ [] self self)

include selfNumbers

private theorem forStmt_numbers : Numbers base δ [] (forStmt self bound) (forStmt self bound) := by
  refine .after expect_steps fun left => .bind forInitializer_numbers fun init =>
    .bind expressionUnless_numbers fun condition => .after expect_steps fun semi =>
      .bind expressionUnless_numbers fun step => .after expect_steps fun right =>
        .bind selfNumbers fun body => .pure ?_ (forLoop_renumber _ init condition step body).symm
  have clause : (Phrase.forClause init).ids = ids init := by cases init <;> rfl
  have optional : ∀ e : Option Expr, (Phrase.optional e).ids = ids e := by rintro (_ | e) <;> rfl
  have parts := forLoop_ids init condition step body
  simp only [clause, optional, ← List.append_assoc] at parts
  exact parts

private theorem whileStmt_numbers : Numbers base δ [] (whileStmt self bound) (whileStmt self bound) :=
  .after expect_steps fun _ => .bind (expression_numbers bound) fun _ =>
    .after expect_steps fun _ => .bind selfNumbers fun _ => .pure (.refl _) rfl

private theorem ifStmt_numbers : Numbers base δ [] (ifStmt self bound) (ifStmt self bound) := by
  refine .after expect_steps fun left => .bind (expression_numbers bound) fun condition =>
    .after expect_steps fun right => .bind selfNumbers fun thenPart => .after accept_steps fun found => ?_
  cases found with
  | none => exact .pure (.refl _) rfl
  | some orElse => exact .bind selfNumbers fun elsePart => .pure (.of_eq (List.append_assoc ..)) rfl

end Statements

private theorem printStmt_numbers : Numbers base δ [] (printStmt bound) (printStmt bound) :=
  .bind (expression_numbers bound) fun _ => .after expect_steps fun _ => .pure (.refl _) rfl

private theorem returnStmt_numbers : Numbers base δ [] (returnStmt bound line) (returnStmt bound line) := by
  refine .bind expressionUnless_numbers fun value => .after expect_steps fun semi => ?_
  cases value with
  | none => exact .pure (.refl _) rfl
  | some e => exact .pure (.refl _) rfl

section Steps

variable {self : Parser Stmt} {declaration : Parser (Option Stmt)} (selfNumbers : Numbers base δ [] self self)
  (declarationNumbers : Numbers base δ [] declaration declaration)

include selfNumbers declarationNumbers

private theorem statementStep_numbers :
    Numbers base δ [] (statementStep self declaration bound) (statementStep self declaration bound) := by
  refine .after peek_steps fun found => ?_
  cases found with
  | none => exact expressionStmt_numbers
  | some token =>
    simp only
    split
    · exact .after skip_steps fun _ => forStmt_numbers selfNumbers
    · exact .after skip_steps fun _ => ifStmt_numbers selfNumbers
    · exact .after skip_steps fun _ => printStmt_numbers
    · exact .after skip_steps fun _ => returnStmt_numbers
    · exact .after skip_steps fun _ => whileStmt_numbers selfNumbers
    · exact .after skip_steps fun _ =>
        .map (block_numbers declarationNumbers bound) (fun _ => .refl _) fun _ => rfl
    · exact expressionStmt_numbers

private theorem declarationStep_numbers :
    Numbers base δ [] (declarationStep self declaration bound) (declarationStep self declaration bound) := by
  refine .after peekKind_steps fun next => ?_
  split
  · exact .after skip_steps fun _ => classDecl_numbers declarationNumbers
  · exact .after skip_steps fun _ =>
      .map (functionDecl_numbers declarationNumbers) (fun _ => .refl _) fun _ => rfl
  · exact .after skip_steps fun _ => variableDecl_numbers
  · exact statementStep_numbers selfNumbers declarationNumbers

end Steps

/-- A statement that is dropped has used up its identities. -/
theorem recovering_numbers (numbers : Numbers base δ [] p p) :
    Numbers base δ [] (recovering p) (recovering p) := by
  intro i s fresh later
  have here := numbers i s fresh later
  unfold recovering
  cases ran : p s with
  | ok stmt t =>
    rw [ran] at here
    simp only [here.1]
    exact ⟨rfl, here.2⟩
  | error halt t =>
    rw [ran] at here
    simp only [here.1]
    cases halt with
    | syntaxError => exact ⟨rfl, here.2, Nat.le_trans fresh.ordered here.2, .nil, nofun, nofun⟩
    | exhausted => exact ⟨rfl, here.2⟩

private theorem statement_declaration_numbers (n : Nat) :
    Numbers base δ [] (statement n) (statement n) ∧ Numbers base δ [] (declaration n) (declaration n) := by
  induction n with
  | zero => exact ⟨.throw _, .throw _⟩
  | succ n ih => exact ⟨statementStep_numbers ih.1 ih.2, recovering_numbers (declarationStep_numbers ih.1 ih.2)⟩

private theorem program_numbers (n : Nat) : Numbers base δ [] (program n) (program n) := by
  induction n with
  | zero => exact .throw _
  | succ n ih =>
    refine .after peek_steps fun found => ?_
    cases found with
    | none => exact .pure (.refl _) rfl
    | some token =>
      refine .bind (statement_declaration_numbers (n + 1)).2 fun found => .bind ih fun rest => ?_
      cases found with
      | none => exact .pure (.refl _) rfl
      | some s => exact .pure (.refl _) rfl

end

/-- The nodes of the statements that could be read have identities of their own, handed out in this
reading, whatever was wrong with the rest. -/
theorem parse_fresh (lastId : NodeId) (scan : Scan) :
    Fresh lastId (parse lastId scan).lastId (Stmt.idsAll (parse lastId scan).statements) := by
  have read := program_numbers (δ := 0) (scan.tokens.length + 1) lastId
    ⟨scan.tokens, scan.endLine, lastId, []⟩ (Fresh.none _) (Nat.zero_le _)
  unfold parse
  cases ran : program (scan.tokens.length + 1) ⟨scan.tokens, scan.endLine, lastId, []⟩ with
  | ok statements t =>
    rw [ran] at read
    exact read.2.2
  | error halt t =>
    rw [ran] at read
    exact ⟨read.2, .nil, nofun, nofun⟩

/-- Read with identities further up, a program has the same errors and, but for the identities, the same
tree. -/
theorem parse_ahead (lastId : Nat) (scan : Scan) (above : base ≤ lastId) (δ : Nat) :
    parse (lastId + δ) scan = ⟨Stmt.renumberAll (moved base δ) (parse lastId scan).statements,
      (parse lastId scan).errors, (parse lastId scan).lastId + δ⟩ := by
  have read := program_numbers (δ := δ) (scan.tokens.length + 1) lastId
    ⟨scan.tokens, scan.endLine, lastId, []⟩ (Fresh.none _) above
  have start : (⟨scan.tokens, scan.endLine, lastId + δ, []⟩ : State) =
    State.ahead ⟨scan.tokens, scan.endLine, lastId, []⟩ δ := rfl
  unfold parse
  rw [start]
  cases ran : program (scan.tokens.length + 1) ⟨scan.tokens, scan.endLine, lastId, []⟩ with
  | ok statements t =>
    rw [ran] at read
    simp only [read.1]
    rfl
  | error halt t =>
    rw [ran] at read
    simp only [read.1]
    rfl

end Parse
end Lox
