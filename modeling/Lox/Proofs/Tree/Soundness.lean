import Lox.Proofs.Tree.Grammar

/-! What a parser accepts without complaint is derivable. The specification of every parser also says
that its bound is not used up and that a syntax error leaves a report, so a program without errors has
been read to its end. -/
namespace Lox.Parse
open Grammar

/-- The tokens left are the last ones of those there were, reports are only added, and identities count
up. -/
structure Advance (s t : State) : Prop where
  tokens : t.tokens <:+ s.tokens
  errors : s.errors <+: t.errors
  ids : s.lastId ≤ t.lastId

namespace Advance

private theorem refl (s : State) : Advance s s := ⟨List.suffix_refl _, List.prefix_refl _, Nat.le_refl _⟩

private theorem trans (first : Advance s t) (second : Advance t u) : Advance s u :=
  ⟨second.tokens.trans first.tokens, first.errors.trans second.errors, Nat.le_trans first.ids second.ids⟩

private theorem length_le (step : Advance s t) : t.tokens.length ≤ s.tokens.length := step.tokens.length_le

/-- Where nothing is reported in the end, nothing was reported on the way. -/
theorem clean (first : Advance s t) (second : Advance t u) (clean : u.errors = s.errors) :
    t.errors = s.errors ∧ u.errors = t.errors := by
  have below : t.errors <+: s.errors := clean ▸ second.errors
  have same := below.eq_of_length_le first.errors.length_le
  exact ⟨same, clean.trans same.symm⟩

end Advance

/-- The parser does not use up its bound here; what it returns satisfies `Q`, and if it gives up, it
has reported an error. -/
def Runs (p : Parser α) (s : State) (Q : α → State → Prop) : Prop :=
  match p s with
  | .ok a t => Advance s t ∧ Q a t
  | .error .syntaxError t => Advance s t ∧ t.errors ≠ s.errors
  | .error .exhausted _ => False

namespace Runs

private theorem pure {Q : α → State → Prop} (here : Q a s) : Runs (pure a) s Q := ⟨.refl s, here⟩

private theorem bind {f : α → Parser β} (first : Runs p s P)
    (next : ∀ a t, Advance s t → P a t → Runs (f a) t Q) : Runs (p >>= f) s Q := by
  unfold Runs at first ⊢
  simp only [Bind.bind, EStateM.bind]
  cases ran : p s with
  | ok a t =>
    simp only [ran] at first
    have after := next a t first.1 first.2
    unfold Runs at after
    cases last : f a t with
    | ok b u =>
      simp only [last] at after ⊢
      exact ⟨first.1.trans after.1, after.2⟩
    | error halt u =>
      cases halt with
      | syntaxError =>
        simp only [last] at after ⊢
        exact ⟨first.1.trans after.1, fun same => after.2 (first.1.clean after.1 same).2⟩
      | exhausted =>
        simp only [last] at after
  | error halt t =>
    cases halt with
    | syntaxError => simpa only [ran] using first
    | exhausted => simp only [ran] at first

private theorem mono (first : Runs p s P) (next : ∀ a t, Advance s t → P a t → Q a t) : Runs p s Q := by
  unfold Runs at first ⊢
  cases ran : p s with
  | ok a t =>
    simp only [ran] at first ⊢
    exact ⟨first.1, next a t first.1 first.2⟩
  | error halt t =>
    cases halt with
    | syntaxError => simpa only [ran] using first
    | exhausted => simp only [ran] at first

private theorem map {f : α → β} (first : Runs p s P) (next : ∀ a t, Advance s t → P a t → Q (f a) t) :
    Runs (f <$> p) s Q := by
  rw [map_eq_pure_bind]
  exact first.bind fun a t step result => .pure (next a t step result)

end Runs

/-! Single tokens. -/

@[simp] theorem runs_peek_bind {f : Option Token → Parser α} :
    Runs (peek >>= f) s Q ↔ Runs (f s.tokens.head?) s Q := Iff.rfl

@[simp] theorem runs_peekKind_bind {f : Option TokenKind → Parser α} :
    Runs (peekKind >>= f) s Q ↔ Runs (f (s.tokens.head?.map (·.kind))) s Q := Iff.rfl

/-- One token has been taken, and nothing else has changed. -/
structure Took (token : Token) (s t : State) : Prop where
  tokens : s.tokens = token :: t.tokens
  errors : t.errors = s.errors
  lastId : t.lastId = s.lastId

private theorem Took.advance (took : Took token s t) : Advance s t :=
  ⟨took.tokens ▸ List.suffix_cons _ _, took.errors ▸ List.prefix_refl _, Nat.le_of_eq took.lastId.symm⟩

private theorem Took.length (took : Took token s t) : s.tokens.length = t.tokens.length + 1 := by
  rw [took.tokens, List.length_cons]

private theorem skip_runs (next : s.tokens = token :: rest) : Runs skip s (fun _ t => Took token s t) := by
  have took : Took token s { s with tokens := s.tokens.tail } := ⟨by simp [next], rfl, rfl⟩
  exact ⟨took.advance, took⟩

private theorem freshId_runs :
    Runs freshId s (fun id t => id = s.lastId + 1 ∧ t = { s with lastId := s.lastId + 1 }) :=
  ⟨⟨List.suffix_refl _, List.prefix_refl _, Nat.le_succ _⟩, rfl, rfl⟩

private theorem reportAt_runs :
    Runs (reportAt cause token) s (fun _ t => t.errors ≠ s.errors ∧ t.tokens = s.tokens) :=
  ⟨⟨List.suffix_refl _, List.prefix_append _ _, Nat.le_refl _⟩, by simp, rfl⟩

private theorem report_runs :
    Runs (report cause) s (fun _ t => t.errors ≠ s.errors ∧ t.tokens = s.tokens) := reportAt_runs

private theorem fail_runs {Q : α → State → Prop} : Runs (fail cause) s Q :=
  ⟨⟨List.suffix_refl _, List.prefix_append _ _, Nat.le_refl _⟩, by simp⟩

private theorem acceptBy_runs {f : Token → Option α} :
    Runs (acceptBy f) s (fun found t => match found with
      | none => t = s ∧ ∀ token, s.tokens.head? = some token → f token = none
      | some a => ∃ token, f token = some a ∧ Took token s t) := by
  obtain ⟨tokens, endLine, lastId, errors⟩ := s
  cases tokens with
  | nil => exact ⟨.refl _, rfl, by simp⟩
  | cons token rest =>
    cases chosen : f token with
    | none =>
      simp only [Runs, acceptBy, chosen]
      exact ⟨.refl _, trivial, by simp [chosen]⟩
    | some a =>
      simp only [Runs, acceptBy, chosen]
      have took : Took token ⟨token :: rest, endLine, lastId, errors⟩ ⟨rest, endLine, lastId, errors⟩ :=
        ⟨rfl, rfl, rfl⟩
      exact ⟨took.advance, token, chosen, took⟩

private theorem accept_runs :
    Runs (accept kind) s (fun found t => match found with
      | none => t = s ∧ s.tokens.head?.map (·.kind) ≠ some kind
      | some token => token.kind = kind ∧ Took token s t) := by
  refine acceptBy_runs.mono fun found t _ result => ?_
  cases found with
  | none =>
    refine ⟨result.1, fun same => ?_⟩
    obtain ⟨token, head, same⟩ := Option.map_eq_some_iff.mp same
    simpa [same] using result.2 token head
  | some token =>
    obtain ⟨taken, chosen, took⟩ := result
    split at chosen
    · cases chosen
      exact ⟨‹_›, took⟩
    · cases chosen

private theorem expect_runs : Runs (expect kind cause) s (fun token t => token.kind = kind ∧ Took token s t) := by
  refine accept_runs.bind fun found t step result => ?_
  cases found with
  | none => exact fail_runs
  | some token => exact .pure result

/-! Lists of arguments and parameters. -/

/-- A list that is read cleanly is not too long. -/
theorem checkLength_runs : Runs (checkLength cause count) s
    (fun _ t => t.tokens = s.tokens ∧ (t.errors = s.errors → count < most ∧ t = s)) := by
  unfold checkLength
  split
  · exact report_runs.mono fun _ t _ result => ⟨result.2, fun same => absurd same result.1⟩
  · rename_i bound
    exact .pure ⟨rfl, fun _ => ⟨Nat.lt_of_not_le bound, rfl⟩⟩

/-! Expressions. -/

/-- If nothing was reported between the two states, the tokens between them make up the phrase. -/
def Reads (phrase : Phrase) (s t : State) : Prop :=
  t.errors = s.errors → ∃ ts, s.tokens = ts ++ t.tokens ∧ Derives .nearest phrase ts s.lastId t.lastId

/-- A phrase of at least one token has been read. -/
def Takes (phrase : Phrase) (s t : State) : Prop :=
  t.tokens.length < s.tokens.length ∧ Reads phrase s t

/-- An expression has been read. -/
def ReadsExpr (rank : Rank) (s : State) (e : Expr) (t : State) : Prop := Takes (.expr rank e) s t

private theorem ReadsExpr.lift (tighter : rank.tighter? = some operand) (read : ReadsExpr operand s e t) :
    ReadsExpr rank s e t := by
  refine ⟨read.1, fun clean => ?_⟩
  obtain ⟨ts, split, derived⟩ := read.2 clean
  exact ⟨ts, split, .lift tighter derived⟩

/-- A token that makes up an expression by itself, with a new number. -/
theorem numbered_runs {node : NodeId → Expr} (next : s.tokens = token :: rest)
    (derives : ∀ i, Derives .nearest (.expr .primary (node (i + 1))) [token] i (i + 1)) :
    Runs (do skip; pure (node (← freshId))) s (ReadsExpr .primary s) := by
  refine (skip_runs next).bind fun _ t _ took => ?_
  refine freshId_runs.bind fun id w _ fresh => .pure ?_
  obtain ⟨rfl, rfl⟩ := fresh
  have := took.length
  refine ⟨by simp only; omega, fun _ => ⟨[token], took.tokens, ?_⟩⟩
  simp only [took.lastId]
  exact derives _

section Ladder

variable {inner : Parser Expr} {n : Nat}
  (innerRuns : ∀ s, s.tokens.length < n → Runs inner s (ReadsExpr .expression s))

include innerRuns

private theorem primary_runs (few : s.tokens.length < n + 1) :
    Runs (primary inner) s (ReadsExpr .primary s) := by
  unfold primary
  rw [runs_peek_bind]
  cases next : s.tokens with
  | nil => exact fail_runs
  | cons token rest =>
    simp only [List.head?_cons]
    cases value : constant? token with
    | some v =>
      refine (skip_runs next).bind fun _ t _ took => .pure ⟨by have := took.length; omega, fun _ => ?_⟩
      exact ⟨[token], took.tokens, took.lastId ▸ .literal (constant?_eq_some_iff.1 value)⟩
    | none =>
      simp only
      split
      · rename_i keyword
        refine (skip_runs next).bind fun _ t _ took => ?_
        refine expect_runs.bind fun dot u _ dotted => ?_
        refine expect_runs.bind fun name v _ named => ?_
        refine freshId_runs.bind fun id w _ fresh => .pure ?_
        obtain ⟨rfl, rfl⟩ := fresh
        have := took.length
        have := dotted.2.length
        have := named.2.length
        refine ⟨by simp only; omega, fun _ => ⟨[token, dot, name], ?_, ?_⟩⟩
        · simp [took.tokens, dotted.2.tokens, named.2.tokens]
        · simp only [named.2.lastId, dotted.2.lastId, took.lastId]
          exact .super keyword dotted.1 named.1
      · rename_i keyword
        exact numbered_runs next fun _ => .this keyword
      · rename_i keyword
        exact numbered_runs next fun _ => .use keyword
      · rename_i keyword
        refine (skip_runs next).bind fun _ t _ took => ?_
        have := took.length
        refine (innerRuns t (by omega)).bind fun e u _ read => ?_
        refine expect_runs.bind fun right v _ closed => .pure ?_
        have := read.1
        have := closed.2.length
        refine ⟨by omega, fun clean => ?_⟩
        have same : u.errors = t.errors := by rw [← closed.2.errors, clean, took.errors]
        obtain ⟨ts, split, derived⟩ := read.2 same
        refine ⟨token :: (ts ++ [right]), ?_, ?_⟩
        · simp [took.tokens, split, closed.2.tokens]
        · rw [closed.2.lastId, ← took.lastId]
          exact .group keyword derived closed.1
      · exact fail_runs

private theorem arguments_runs (m count : Nat) (few : s.tokens.length < m) (within : s.tokens.length < n) :
    Runs (arguments inner m count) s (fun es t => t.tokens.length < s.tokens.length ∧ es ≠ [] ∧
      Reads (.arguments es) s t ∧ (t.errors = s.errors → count + es.length ≤ most)) := by
  induction m generalizing s count with
  | zero => omega
  | succ m ih =>
    unfold arguments
    refine checkLength_runs.bind fun _ t first check => ?_
    have same : t.tokens.length = s.tokens.length := by rw [check.1]
    refine (innerRuns t (by omega)).bind fun e u second read => ?_
    have := read.1
    refine accept_runs.bind fun found v third accepted => ?_
    cases found with
    | none =>
      refine .pure ⟨by rw [accepted.1]; omega, by simp, fun clean => ?_, fun clean => ?_⟩
      · obtain ⟨_, rfl⟩ := check.2 (first.clean (second.trans third) clean).1
        obtain ⟨ts, split, derived⟩ := read.2 (by rw [accepted.1] at clean; exact clean)
        rw [accepted.1]
        exact ⟨ts, split, .oneArgument derived⟩
      · exact (check.2 (first.clean (second.trans third) clean).1).1
    | some comma =>
      have := accepted.2.length
      refine (ih (s := v) (count + 1) (by omega) (by omega)).bind fun rest w fourth more => .pure ?_
      obtain ⟨shorter, nonempty, moreRead, total⟩ := more
      refine ⟨by omega, by simp, fun clean => ?_, fun clean => ?_⟩
      · obtain ⟨checkClean, laterClean⟩ := first.clean (second.trans (third.trans fourth)) clean
        obtain ⟨_, rfl⟩ := check.2 checkClean
        obtain ⟨readClean, restClean⟩ := second.clean (third.trans fourth) laterClean
        obtain ⟨ts, split, derived⟩ := read.2 readClean
        obtain ⟨us, split', derived'⟩ := moreRead (by rw [restClean, accepted.2.errors])
        obtain ⟨next, es, rfl⟩ := List.exists_cons_of_ne_nil nonempty
        refine ⟨ts ++ comma :: us, ?_, ?_⟩
        · simp [split, accepted.2.tokens, split']
        · rw [accepted.2.lastId] at derived'
          exact .moreArguments derived accepted.1 derived'
      · have last := (first.trans (second.trans third)).clean fourth clean
        have := total last.2
        simp only [List.length_cons]
        omega

private theorem argumentList_runs (m : Nat) (few : s.tokens.length < m) (within : s.tokens.length < n) :
    Runs (argumentList inner m) s
      (fun es t => Reads (.arguments es) s t ∧ (t.errors = s.errors → es.length ≤ most)) := by
  unfold argumentList
  rw [runs_peekKind_bind]
  split
  · exact .pure ⟨fun _ => ⟨[], rfl, .noArguments⟩, fun _ => Nat.zero_le _⟩
  · refine (arguments_runs innerRuns m 0 few within).mono fun es t _ args => ?_
    exact ⟨args.2.2.1, by simpa using args.2.2.2⟩

/-- What follows an expression is joined to what has been read of it since `s`. -/
theorem callTail_runs (m : Nat) (few : t.tokens.length < m) (within : t.tokens.length < n + 1)
    (step : Advance s t) (read : ReadsExpr .call s e t) :
    Runs (callTail inner m e) t (ReadsExpr .call s) := by
  induction m generalizing e t with
  | zero => omega
  | succ m ih =>
    have shorter := read.1
    unfold callTail
    rw [runs_peekKind_bind]
    cases next : t.tokens with
    | nil => exact .pure read
    | cons token rest =>
      simp only [List.head?_cons, Option.map_some]
      split
      · rename_i opening
        simp only [Option.some.injEq] at opening
        refine (skip_runs next).bind fun _ u first took => ?_
        have := took.length
        refine (argumentList_runs innerRuns (m + 1) (by omega) (by omega)).bind fun args v second argsRead => ?_
        have := second.length_le
        refine expect_runs.bind fun right w third closed => ?_
        have := closed.2.length
        refine ih (by omega) (by omega) (step.trans (first.trans (second.trans third)))
          ⟨by omega, fun clean => ?_⟩
        obtain ⟨readClean, callClean⟩ := step.clean (first.trans (second.trans third)) clean
        have argsClean : v.errors = u.errors := by
          rw [← closed.2.errors, callClean, took.errors]
        obtain ⟨ts, split, derived⟩ := read.2 readClean
        obtain ⟨us, split', derived'⟩ := argsRead.1 argsClean
        refine ⟨ts ++ token :: (us ++ [right]), ?_, ?_⟩
        · simp [split, took.tokens, split', closed.2.tokens]
        · rw [took.lastId] at derived'
          rw [closed.2.lastId]
          exact .call derived opening derived' (argsRead.2 argsClean) closed.1
      · rename_i dotted
        simp only [Option.some.injEq] at dotted
        refine (skip_runs next).bind fun _ u first took => ?_
        have := took.length
        refine expect_runs.bind fun name v second named => ?_
        have := named.2.length
        refine ih (by omega) (by omega) (step.trans (first.trans second)) ⟨by omega, fun clean => ?_⟩
        obtain ⟨readClean, -⟩ := step.clean (first.trans second) clean
        obtain ⟨ts, split, derived⟩ := read.2 readClean
        refine ⟨ts ++ [token, name], ?_, ?_⟩
        · simp [split, took.tokens, named.2.tokens]
        · rw [named.2.lastId, took.lastId]
          exact .get derived dotted named.1
      · exact .pure read

private theorem call_runs (few : s.tokens.length < n + 1) :
    Runs (call inner (n + 1)) s (ReadsExpr .call s) := by
  refine (primary_runs innerRuns few).bind fun e t step read => ?_
  have := read.1
  exact callTail_runs innerRuns (n + 1) (by omega) (by omega) step (read.lift rfl)

private theorem unary_runs (m : Nat) (few : s.tokens.length < m) (within : s.tokens.length < n + 1) :
    Runs (unary inner (n + 1) m) s (ReadsExpr .unary s) := by
  induction m generalizing s with
  | zero => omega
  | succ m ih =>
    unfold unary
    refine acceptBy_runs.bind fun found t step accepted => ?_
    cases found with
    | none =>
      obtain ⟨rfl, -⟩ := accepted
      exact (call_runs innerRuns within).mono fun e u _ read => read.lift rfl
    | some op =>
      obtain ⟨token, operator, took⟩ := accepted
      have := took.length
      refine (ih (by omega) (by omega)).bind fun e u second read => .pure ⟨?_, fun clean => ?_⟩
      · have := read.1
        omega
      · obtain ⟨ts, split, derived⟩ := read.2 (step.clean second clean).2
        refine ⟨token :: ts, by simp [took.tokens, split], ?_⟩
        rw [took.lastId] at derived
        obtain ⟨line, signed⟩ : op.2 = token.line ∧ sign? token.kind = some op.1 := by
          unfold unaryOp? at operator
          split at operator <;> cases operator <;> rename_i kind <;> simp [sign?, kind]
        rw [line]
        exact .sign signed derived

end Ladder

/-- The operators of a level as tokens that join two sides. -/
def joiner (rank : Rank) : Joiner := fun t => (rank.join? t.kind).map (· t.line)

theorem orOp_eq : orOp = joiner .or := by
  funext ⟨kind, lexeme, line⟩
  cases kind <;> rfl

theorem andOp_eq : andOp = joiner .and := by
  funext ⟨kind, lexeme, line⟩
  cases kind <;> rfl

theorem equalityOp_eq : equalityOp = joiner .equality := by
  funext ⟨kind, lexeme, line⟩
  cases kind <;> rfl

theorem comparisonOp_eq : comparisonOp = joiner .comparison := by
  funext ⟨kind, lexeme, line⟩
  cases kind <;> rfl

theorem termOp_eq : termOp = joiner .term := by
  funext ⟨kind, lexeme, line⟩
  cases kind <;> rfl

theorem factorOp_eq : factorOp = joiner .factor := by
  funext ⟨kind, lexeme, line⟩
  cases kind <;> rfl

/-- Further operands are joined to what has been read since `s`. -/
theorem chain_runs (tighter : rank.tighter? = some operand)
    (operandRuns : ∀ s, s.tokens.length < n → Runs p s (ReadsExpr operand s))
    (m : Nat) (few : t.tokens.length < m) (within : t.tokens.length < n)
    (step : Advance s t) (read : ReadsExpr rank s left t) :
    Runs (chain (joiner rank) p m left) t (ReadsExpr rank s) := by
  induction m generalizing left t with
  | zero => omega
  | succ m ih =>
    have := read.1
    unfold chain
    refine acceptBy_runs.bind fun found u first accepted => ?_
    cases found with
    | none =>
      obtain ⟨rfl, -⟩ := accepted
      exact .pure read
    | some join =>
      obtain ⟨token, operator, took⟩ := accepted
      have := took.length
      refine (operandRuns u (by omega)).bind fun right v second readRight => ?_
      have := readRight.1
      refine ih (by omega) (by omega) (step.trans (first.trans second)) ⟨by omega, fun clean => ?_⟩
      obtain ⟨leftClean, laterClean⟩ := step.clean (first.trans second) clean
      obtain ⟨ts, split, derived⟩ := read.2 leftClean
      obtain ⟨us, split', derived'⟩ := readRight.2 (first.clean second laterClean).2
      obtain ⟨node, joins, rfl⟩ := Option.map_eq_some_iff.mp operator
      refine ⟨ts ++ token :: us, by simp [split, took.tokens, split'], ?_⟩
      rw [took.lastId] at derived'
      exact .join joins derived tighter derived'

private theorem level_runs (tighter : rank.tighter? = some operand)
    (operandRuns : ∀ s, s.tokens.length < n → Runs p s (ReadsExpr operand s))
    (few : s.tokens.length < n) : Runs (level n (joiner rank) p) s (ReadsExpr rank s) := by
  refine (operandRuns s few).bind fun left t step read => ?_
  have := read.1
  exact chain_runs tighter operandRuns n (by omega) (by omega) step (read.lift tighter)

private theorem operators_runs {inner : Parser Expr}
    (innerRuns : ∀ s, s.tokens.length < n → Runs inner s (ReadsExpr .expression s))
    (few : s.tokens.length < n + 1) : Runs (operators inner (n + 1)) s (ReadsExpr .or s) := by
  unfold operators
  rw [orOp_eq, andOp_eq, equalityOp_eq, comparisonOp_eq, termOp_eq, factorOp_eq]
  refine level_runs rfl (fun s few => ?_) few
  refine level_runs rfl (fun s few => ?_) few
  refine level_runs rfl (fun s few => ?_) few
  refine level_runs rfl (fun s few => ?_) few
  refine level_runs rfl (fun s few => ?_) few
  refine level_runs rfl (fun s few => ?_) few
  exact unary_runs innerRuns (n + 1) few few

private theorem assignment_runs {inner : Parser Expr}
    (innerRuns : ∀ s, s.tokens.length < n → Runs inner s (ReadsExpr .expression s))
    (few : s.tokens.length < n + 1) : Runs (assignment inner (n + 1)) s (ReadsExpr .expression s) := by
  refine (operators_runs innerRuns few).bind fun target t first read => ?_
  have := read.1
  refine accept_runs.bind fun found u second accepted => ?_
  cases found with
  | none =>
    obtain ⟨rfl, -⟩ := accepted
    exact .pure (read.lift rfl)
  | some equal =>
    obtain ⟨mark, took⟩ := accepted
    have := took.length
    refine (innerRuns u (by omega)).bind fun value v third readValue => ?_
    have := readValue.1
    have parts (clean : v.errors = s.errors) : ∃ ts us,
        s.tokens = ts ++ equal :: (us ++ v.tokens) ∧
        Derives .nearest (.expr .or target) ts s.lastId t.lastId ∧
        Derives .nearest (.expr .expression value) us t.lastId v.lastId := by
      obtain ⟨targetClean, laterClean⟩ := first.clean (second.trans third) clean
      obtain ⟨ts, split, derived⟩ := read.2 targetClean
      obtain ⟨us, split', derived'⟩ := readValue.2 (second.clean third laterClean).2
      refine ⟨ts, us, by simp [split, took.tokens, split'], derived, took.lastId ▸ derived'⟩
    split
    · refine freshId_runs.bind fun id w _ fresh => .pure ?_
      obtain ⟨rfl, rfl⟩ := fresh
      refine ⟨by simp only; omega, fun clean => ?_⟩
      obtain ⟨ts, us, split, derived, derived'⟩ := parts clean
      obtain ⟨name, rfl, named, rfl, next⟩ := derived.use_tokens
      exact ⟨name :: equal :: us, by simp [split], .assign named mark (next ▸ derived')⟩
    · refine .pure ⟨by omega, fun clean => ?_⟩
      obtain ⟨ts, us, split, derived, derived'⟩ := parts clean
      obtain ⟨front, dot, name, rfl, dotted, named, rfl, object⟩ := derived.get_tokens
      exact ⟨front ++ dot :: name :: equal :: us, by simp [split], .set object dotted named mark derived'⟩
    · refine reportAt_runs.bind fun _ w last reported => .pure ⟨?_, fun clean => ?_⟩
      · rw [reported.2]
        omega
      · exact absurd ((first.trans (second.trans third)).clean last clean).2 reported.1

private theorem expression_runs (n : Nat) (few : s.tokens.length < n) :
    Runs (expression n) s (ReadsExpr .expression s) := by
  induction n generalizing s with
  | zero => omega
  | succ n ih => exact assignment_runs (fun s few => ih few) few

/-! Statements. -/

private theorem expressionUnless_runs (few : s.tokens.length < bound) :
    Runs (expressionUnless stop bound) s (fun e t => Reads (.optional e) s t) := by
  unfold expressionUnless
  rw [runs_peekKind_bind]
  split
  · exact .pure fun _ => ⟨[], rfl, .absent⟩
  · refine (expression_runs bound few).map fun e t _ read clean => ?_
    obtain ⟨ts, split, derived⟩ := read.2 clean
    exact ⟨ts, split, .present derived⟩

private theorem expressionStmt_runs (few : s.tokens.length < bound) :
    Runs (expressionStmt bound) s (fun stmt t => t.tokens.length < s.tokens.length ∧
      Reads (.statement stmt false) s t ∧ Reads (.forClause (some stmt)) s t) := by
  refine (expression_runs bound few).bind fun e t first read => ?_
  refine expect_runs.bind fun semi u second closed => .pure ?_
  have parts (clean : u.errors = s.errors) : ∃ ts, s.tokens = (ts ++ [semi]) ++ u.tokens ∧
      Derives .nearest (.expr .expression e) ts s.lastId u.lastId := by
    obtain ⟨ts, split, derived⟩ := read.2 (first.clean second clean).1
    exact ⟨ts, by simp [split, closed.2.tokens], closed.2.lastId ▸ derived⟩
  refine ⟨?_, fun clean => ?_, fun clean => ?_⟩
  · have := read.1
    have := closed.2.length
    omega
  · obtain ⟨ts, split, derived⟩ := parts clean
    exact ⟨_, split, .expression derived closed.1⟩
  · obtain ⟨ts, split, derived⟩ := parts clean
    exact ⟨_, split, .expressionClause derived closed.1⟩

private theorem initializer_runs (few : s.tokens.length < bound) :
    Runs (initializer bound) s (fun init t => match init with
      | none => t = s
      | some e => ∃ equal u, equal.kind = .equal ∧ Took equal s u ∧ Advance u t ∧
          ReadsExpr .expression u e t) := by
  refine accept_runs.bind fun found t step accepted => ?_
  cases found with
  | none => exact .pure accepted.1
  | some equal =>
    have := accepted.2.length
    refine (expression_runs bound (by omega)).map fun e u after read => ?_
    exact ⟨equal, t, accepted.1, accepted.2, after, read⟩

private theorem variableDecl_runs (few : s.tokens.length < bound) :
    Runs (variableDecl bound) s (fun stmt t => Takes (.variableDecl stmt) s t) := by
  refine expect_runs.bind fun name t first named => ?_
  have := named.2.length
  refine (initializer_runs (by omega)).bind fun init u second found => ?_
  have := second.length_le
  refine expect_runs.bind fun semi v third closed => .pure ⟨?_, fun clean => ?_⟩
  · have := closed.2.length
    omega
  · cases init with
    | none =>
      subst found
      refine ⟨[name, semi], by simp [named.2.tokens, closed.2.tokens], ?_⟩
      rw [closed.2.lastId, named.2.lastId]
      exact .bareVariable named.1 closed.1
    | some e =>
      obtain ⟨equal, w, mark, took, after, read⟩ := found
      have same : u.errors = w.errors := by
        rw [← closed.2.errors, clean, took.errors, named.2.errors]
      obtain ⟨ts, split, derived⟩ := read.2 same
      refine ⟨name :: equal :: (ts ++ [semi]), ?_, ?_⟩
      · simp [named.2.tokens, took.tokens, split, closed.2.tokens]
      · rw [took.lastId, named.2.lastId] at derived
        rw [closed.2.lastId]
        exact .initializedVariable named.1 mark derived closed.1

/-- A statement has been read. If it is open, no `else` follows it. -/
def ReadsStmt (s : State) (stmt : Stmt) (t : State) : Prop :=
  t.tokens.length < s.tokens.length ∧ (t.errors = s.errors → ∃ isOpen ts, s.tokens = ts ++ t.tokens ∧
    Derives .nearest (.statement stmt isOpen) ts s.lastId t.lastId ∧
    (isOpen = true → t.tokens.head?.map (·.kind) ≠ some .kwElse))

/-- A declaration has been read, or skipped after a report. -/
def ReadsDecl (s : State) (found : Option Stmt) (t : State) : Prop :=
  t.tokens.length < s.tokens.length ∧ (t.errors = s.errors → ∃ stmt ts, found = some stmt ∧
    s.tokens = ts ++ t.tokens ∧ Derives .nearest (.declaration stmt) ts s.lastId t.lastId)

/-- A phrase has been read up to its closing brace. -/
def ReadsBraced (phrase : Phrase) (s t : State) : Prop :=
  t.tokens.length < s.tokens.length ∧ (t.errors = s.errors → ∃ ts right,
    s.tokens = ts ++ right :: t.tokens ∧ right.kind = .rightBrace ∧
    Derives .nearest phrase ts s.lastId t.lastId)

private theorem closing_brace_runs (empty : ∀ i, Derives .nearest phrase [] i i) :
    Runs (expect .rightBrace cause) s (fun _ t => ReadsBraced phrase s t) := by
  refine expect_runs.mono fun right t _ closed => ⟨?_, fun _ => ?_⟩
  · have := closed.2.length
    omega
  · exact ⟨[], right, closed.2.tokens, closed.1, closed.2.lastId ▸ empty _⟩

private theorem parameters_runs (m count : Nat) (few : s.tokens.length < m) :
    Runs (parameters m count) s (fun ps t => ps ≠ [] ∧ (t.errors = s.errors →
      t.lastId = s.lastId ∧ count + ps.length ≤ most ∧
        ∃ ts, s.tokens = ts ++ t.tokens ∧ Parameters ts ps)) := by
  induction m generalizing s count with
  | zero => omega
  | succ m ih =>
    unfold parameters
    refine checkLength_runs.bind fun _ t first check => ?_
    have same : t.tokens.length = s.tokens.length := by rw [check.1]
    refine expect_runs.bind fun name u second named => ?_
    have := named.2.length
    refine accept_runs.bind fun found v third accepted => ?_
    cases found with
    | none =>
      obtain ⟨rfl, -⟩ := accepted
      refine .pure ⟨by simp, fun clean => ?_⟩
      obtain ⟨below, rfl⟩ := check.2 (first.clean second clean).1
      exact ⟨named.2.lastId, below, [name], named.2.tokens, .one named.1⟩
    | some comma =>
      have := accepted.2.length
      refine (ih (s := v) (count + 1) (by omega)).bind fun rest w fourth more => .pure ?_
      refine ⟨by simp, fun clean => ?_⟩
      obtain ⟨checkClean, laterClean⟩ := first.clean (second.trans (third.trans fourth)) clean
      obtain ⟨-, rfl⟩ := check.2 checkClean
      obtain ⟨lastId, total, ts, split, params⟩ := more.2 ((second.trans third).clean fourth laterClean).2
      obtain ⟨next, ps, rfl⟩ := List.exists_cons_of_ne_nil more.1
      refine ⟨?_, ?_, name :: comma :: ts, ?_, .more named.1 accepted.1 params⟩
      · rw [lastId, accepted.2.lastId, named.2.lastId]
      · simp only [List.length_cons] at total ⊢
        omega
      · simp [named.2.tokens, accepted.2.tokens, split]

private theorem parameterList_runs (few : s.tokens.length < bound) :
    Runs (parameterList bound) s (fun ps t => t.errors = s.errors → t.lastId = s.lastId ∧
      ps.length ≤ most ∧ ∃ ts, s.tokens = ts ++ t.tokens ∧ Parameters ts ps) := by
  unfold parameterList
  rw [runs_peekKind_bind]
  split
  · exact .pure fun _ => ⟨rfl, Nat.zero_le _, [], rfl, .none⟩
  · refine (parameters_runs bound 0 few).mono fun ps t _ params => ?_
    simpa using params.2

private theorem superclass_runs : Runs superclass s (fun parent t => match parent with
    | none => t = s
    | some ref => ∃ less name, less.kind = .less ∧ name.kind = .identifier ∧
        ref = ⟨s.lastId + 1, name.ident⟩ ∧ t.lastId = s.lastId + 1 ∧ t.errors = s.errors ∧
        s.tokens = less :: name :: t.tokens) := by
  refine accept_runs.bind fun found t step accepted => ?_
  cases found with
  | none => exact .pure accepted.1
  | some less =>
    refine expect_runs.bind fun name u _ named => ?_
    refine freshId_runs.bind fun id v _ fresh => .pure ?_
    obtain ⟨rfl, rfl⟩ := fresh
    refine ⟨less, name, accepted.1, named.1, ?_, ?_, ?_, ?_⟩
    · rw [named.2.lastId, accepted.2.lastId]
    · simp only [named.2.lastId, accepted.2.lastId]
    · simp only [named.2.errors, accepted.2.errors]
    · simp only [accepted.2.tokens, named.2.tokens]

section Bodies

variable {declaration : Parser (Option Stmt)} {n : Nat}
  (declarationRuns : ∀ s, s.tokens ≠ [] → s.tokens.length < n → Runs declaration s (ReadsDecl s))

include declarationRuns

private theorem block_runs (m : Nat) (few : s.tokens.length < m) (within : s.tokens.length < n) :
    Runs (block declaration m) s (fun body t => ReadsBraced (.declarations body) s t) := by
  induction m generalizing s with
  | zero => omega
  | succ m ih =>
    unfold block
    rw [runs_peekKind_bind]
    cases next : s.tokens with
    | nil => exact (closing_brace_runs fun _ => .noDeclarations).bind fun _ t _ closed => .pure closed
    | cons token rest =>
      simp only [List.head?_cons, Option.map_some]
      split
      · exact (closing_brace_runs fun _ => .noDeclarations).bind fun _ t _ closed => .pure closed
      · exact (closing_brace_runs fun _ => .noDeclarations).bind fun _ t _ closed => .pure closed
      · refine (declarationRuns s (by simp [next]) within).bind fun found t first read => ?_
        have := read.1
        refine (ih (by omega) (by omega)).bind fun body u second readRest => .pure ⟨?_, fun clean => ?_⟩
        · have := readRest.1
          omega
        · obtain ⟨declClean, restClean⟩ := first.clean second clean
          obtain ⟨stmt, ts, rfl, split, derived⟩ := read.2 declClean
          obtain ⟨us, right, split', closing, derived'⟩ := readRest.2 restClean
          exact ⟨ts ++ us, right, by simp [split, split'], closing, .moreDeclarations derived derived'⟩

private theorem functionDecl_runs (few : s.tokens.length < n + 1) :
    Runs (functionDecl declaration (n + 1) kind) s (fun decl t => Takes (.function decl) s t) := by
  refine expect_runs.bind fun name t first named => ?_
  have := named.2.length
  refine expect_runs.bind fun left u second opening => ?_
  have := opening.2.length
  refine (parameterList_runs (by omega)).bind fun params v third paramsRead => ?_
  have := third.length_le
  refine expect_runs.bind fun right w fourth closing => ?_
  have := closing.2.length
  refine expect_runs.bind fun brace x fifth start => ?_
  have := start.2.length
  refine (block_runs declarationRuns (n + 1) (by omega) (by omega)).bind fun body y sixth read =>
    .pure ⟨?_, fun clean => ?_⟩
  · have := read.1
    omega
  · obtain ⟨headClean, bodyClean⟩ :=
      (first.trans (second.trans (third.trans (fourth.trans fifth)))).clean sixth clean
    have paramsClean : v.errors = u.errors := by
      rw [← closing.2.errors, ← start.2.errors, headClean, opening.2.errors, named.2.errors]
    obtain ⟨lastId, total, ts, split, list⟩ := paramsRead paramsClean
    obtain ⟨us, final, split', stop, derived⟩ := read.2 bodyClean
    refine ⟨name :: left :: (ts ++ right :: brace :: (us ++ [final])), ?_, ?_⟩
    · simp [named.2.tokens, opening.2.tokens, split, closing.2.tokens, start.2.tokens, split']
    · rw [start.2.lastId, closing.2.lastId, lastId, opening.2.lastId, named.2.lastId] at derived
      exact .function named.1 opening.1 list total closing.1 start.1 derived stop

private theorem methods_runs (m : Nat) (few : s.tokens.length < m) (within : s.tokens.length < n + 1) :
    Runs (methods declaration (n + 1) m) s (fun decls t => ReadsBraced (.methods decls) s t) := by
  induction m generalizing s with
  | zero => omega
  | succ m ih =>
    unfold methods
    rw [runs_peekKind_bind]
    split
    · exact (closing_brace_runs fun _ => .noMethods).bind fun _ t _ closed => .pure closed
    · exact (closing_brace_runs fun _ => .noMethods).bind fun _ t _ closed => .pure closed
    · refine (functionDecl_runs declarationRuns within).bind fun decl t first read => ?_
      have := read.1
      refine (ih (by omega) (by omega)).bind fun decls u second readRest => .pure ⟨?_, fun clean => ?_⟩
      · have := readRest.1
        omega
      · obtain ⟨declClean, restClean⟩ := first.clean second clean
        obtain ⟨ts, split, derived⟩ := read.2 declClean
        obtain ⟨us, right, split', closing, derived'⟩ := readRest.2 restClean
        exact ⟨ts ++ us, right, by simp [split, split'], closing, .moreMethods derived derived'⟩

private theorem classDecl_runs (few : s.tokens.length < n + 1) (keyword : token.kind = .kwClass)
    (took : Took token r s) :
    Runs (classDecl declaration (n + 1)) s (fun stmt t => Takes (.declaration stmt) r t) := by
  have := took.length
  refine expect_runs.bind fun name t first named => ?_
  have := named.2.length
  refine superclass_runs.bind fun parent u second found => ?_
  have := second.length_le
  refine expect_runs.bind fun left v third opening => ?_
  have := opening.2.length
  refine (methods_runs declarationRuns (n + 1) (by omega) (by omega)).bind fun decls w fourth read =>
    .pure ⟨?_, fun clean => ?_⟩
  · have := read.1
    omega
  · obtain ⟨-, bodyClean⟩ := (took.advance.trans (first.trans (second.trans third))).clean fourth clean
    obtain ⟨ts, right, split, closing, derived⟩ := read.2 bodyClean
    cases parent with
    | none =>
      subst found
      refine ⟨token :: name :: left :: (ts ++ [right]), ?_, ?_⟩
      · simp [took.tokens, named.2.tokens, opening.2.tokens, split]
      · rw [opening.2.lastId, named.2.lastId, took.lastId] at derived
        exact .plainClass keyword named.1 opening.1 derived closing
    | some ref =>
      obtain ⟨less, above, mark, namesParent, rfl, lastId, -, split'⟩ := found
      refine ⟨token :: name :: less :: above :: left :: (ts ++ [right]), ?_, ?_⟩
      · simp [took.tokens, named.2.tokens, split', opening.2.tokens, split]
      · rw [opening.2.lastId, lastId, named.2.lastId, took.lastId] at derived
        rw [named.2.lastId, took.lastId]
        exact .subclass keyword named.1 mark namesParent opening.1 derived closing

end Bodies

private theorem forInitializer_runs (few : s.tokens.length < bound) :
    Runs (forInitializer bound) s (fun init t => Reads (.forClause init) s t) := by
  unfold forInitializer
  rw [runs_peekKind_bind]
  cases next : s.tokens with
  | nil => exact (expressionStmt_runs few).map fun stmt t _ read => read.2.2
  | cons token rest =>
    simp only [List.head?_cons, Option.map_some]
    split
    · rename_i mark
      simp only [Option.some.injEq] at mark
      refine (skip_runs next).bind fun _ t _ took => .pure fun _ => ?_
      exact ⟨[token], took.tokens, took.lastId ▸ .noClause mark⟩
    · rename_i keyword
      simp only [Option.some.injEq] at keyword
      refine (skip_runs next).bind fun _ t first took => ?_
      have := took.length
      refine (variableDecl_runs (by omega)).map fun stmt u second read clean => ?_
      obtain ⟨ts, split, derived⟩ := read.2 (first.clean second clean).2
      refine ⟨token :: ts, by simp [took.tokens, split], ?_⟩
      rw [took.lastId] at derived
      exact .variableClause keyword derived
    · exact (expressionStmt_runs few).map fun stmt t _ read => read.2.2

/-- The condition in parentheses that an `if` or a `while` starts with. -/
private theorem condition_runs {f : Expr → Parser Stmt} (few : s.tokens.length < n)
    (took : Took token r s)
    (next : ∀ c t, t.tokens.length < s.tokens.length → Advance r t →
      (t.errors = r.errors → ∃ ts left right, left.kind = .leftParen ∧ right.kind = .rightParen ∧
        r.tokens = token :: left :: (ts ++ right :: t.tokens) ∧
        Derives .nearest (.expr .expression c) ts r.lastId t.lastId) → Runs (f c) t (ReadsStmt r)) :
    Runs (do
      let _ ← expect .leftParen cause
      let c ← expression (n + 1)
      let _ ← expect .rightParen cause'
      f c) s (ReadsStmt r) := by
  refine expect_runs.bind fun left t first opening => ?_
  have := opening.2.length
  refine (expression_runs (n + 1) (by omega)).bind fun c u second read => ?_
  have := read.1
  refine expect_runs.bind fun right v third closing => ?_
  have := closing.2.length
  refine next c v (by omega) (took.advance.trans (first.trans (second.trans third))) fun clean => ?_
  have same : u.errors = t.errors := by
    rw [← closing.2.errors, clean, opening.2.errors, took.errors]
  obtain ⟨ts, split, derived⟩ := read.2 same
  refine ⟨ts, left, right, opening.1, closing.1, ?_, ?_⟩
  · simp [took.tokens, opening.2.tokens, split, closing.2.tokens]
  · rw [opening.2.lastId, took.lastId] at derived
    rw [closing.2.lastId]
    exact derived

section Statements

variable {self : Parser Stmt} {n : Nat}
  (selfRuns : ∀ s, s.tokens.length < n → Runs self s (ReadsStmt s))

include selfRuns

private theorem forStmt_runs (few : s.tokens.length < n) (keyword : token.kind = .kwFor)
    (took : Took token r s) : Runs (forStmt self (n + 1)) s (ReadsStmt r) := by
  have := took.length
  refine expect_runs.bind fun left t first opening => ?_
  have := opening.2.length
  refine (forInitializer_runs (by omega)).bind fun init u second initRead => ?_
  have := second.length_le
  refine (expressionUnless_runs (by omega)).bind fun condition v third conditionRead => ?_
  have := third.length_le
  refine expect_runs.bind fun semi w fourth mark => ?_
  have := mark.2.length
  refine (expressionUnless_runs (by omega)).bind fun step x fifth stepRead => ?_
  have := fifth.length_le
  refine expect_runs.bind fun right y sixth closing => ?_
  have := closing.2.length
  refine (selfRuns y (by omega)).bind fun body z seventh read => .pure ⟨?_, fun clean => ?_⟩
  · have := read.1
    omega
  · obtain ⟨-, initLater⟩ := (took.advance.trans first).clean
      (second.trans (third.trans (fourth.trans (fifth.trans (sixth.trans seventh))))) clean
    obtain ⟨initClean, conditionLater⟩ :=
      second.clean (third.trans (fourth.trans (fifth.trans (sixth.trans seventh)))) initLater
    obtain ⟨conditionClean, stepLater⟩ :=
      third.clean (fourth.trans (fifth.trans (sixth.trans seventh))) conditionLater
    obtain ⟨-, stepLater⟩ := fourth.clean (fifth.trans (sixth.trans seventh)) stepLater
    obtain ⟨stepClean, bodyLater⟩ := fifth.clean (sixth.trans seventh) stepLater
    obtain ⟨-, bodyClean⟩ := sixth.clean seventh bodyLater
    obtain ⟨ts, split, derived⟩ := initRead initClean
    obtain ⟨us, split', derived'⟩ := conditionRead conditionClean
    obtain ⟨vs, split'', derived''⟩ := stepRead stepClean
    obtain ⟨isOpen, ws, splitBody, derivedBody, notElse⟩ := read.2 bodyClean
    refine ⟨isOpen, token :: left :: (ts ++ (us ++ semi :: (vs ++ right :: ws))), ?_, ?_, notElse⟩
    · simp [took.tokens, opening.2.tokens, split, split', mark.2.tokens, split'', closing.2.tokens,
        splitBody]
    · rw [opening.2.lastId, took.lastId] at derived
      rw [mark.2.lastId] at derived''
      rw [closing.2.lastId] at derivedBody
      exact .forLoop keyword opening.1 derived derived' mark.1 derived'' closing.1 derivedBody

private theorem whileStmt_runs (few : s.tokens.length < n) (keyword : token.kind = .kwWhile)
    (took : Took token r s) : Runs (whileStmt self (n + 1)) s (ReadsStmt r) := by
  have := took.length
  refine condition_runs few took fun c t shorter step head => ?_
  refine (selfRuns t (by omega)).bind fun body u last read => .pure ⟨?_, fun clean => ?_⟩
  · have := read.1
    omega
  · obtain ⟨headClean, bodyClean⟩ := step.clean last clean
    obtain ⟨ts, left, right, opening, closing, split, derived⟩ := head headClean
    obtain ⟨isOpen, us, split', derived', notElse⟩ := read.2 bodyClean
    refine ⟨isOpen, token :: left :: (ts ++ right :: us), by simp [split, split'], ?_, notElse⟩
    exact .whileLoop keyword opening derived closing derived'

private theorem ifStmt_runs (few : s.tokens.length < n) (keyword : token.kind = .kwIf)
    (took : Took token r s) : Runs (ifStmt self (n + 1)) s (ReadsStmt r) := by
  have := took.length
  refine condition_runs few took fun c t shorter step head => ?_
  refine (selfRuns t (by omega)).bind fun body u second read => ?_
  have := read.1
  refine accept_runs.bind fun found v third accepted => ?_
  cases found with
  | none =>
    obtain ⟨rfl, notElse⟩ := accepted
    refine .pure ⟨by omega, fun clean => ?_⟩
    obtain ⟨headClean, bodyClean⟩ := step.clean second clean
    obtain ⟨ts, left, right, opening, closing, split, derived⟩ := head headClean
    obtain ⟨isOpen, us, split', derived', -⟩ := read.2 bodyClean
    refine ⟨true, token :: left :: (ts ++ right :: us), by simp [split, split'], ?_, fun _ => notElse⟩
    exact .ifOnly keyword opening derived closing derived'
  | some orElse =>
    have := accepted.2.length
    refine (selfRuns v (by omega)).bind fun other w fourth readElse => .pure ⟨?_, fun clean => ?_⟩
    · have := readElse.1
      omega
    · obtain ⟨headClean, laterClean⟩ := step.clean (second.trans (third.trans fourth)) clean
      obtain ⟨thenClean, elseLater⟩ := second.clean (third.trans fourth) laterClean
      obtain ⟨-, elseClean⟩ := third.clean fourth elseLater
      obtain ⟨ts, left, right, opening, closing, split, derived⟩ := head headClean
      obtain ⟨thenOpen, us, split', derived', attached⟩ := read.2 thenClean
      obtain ⟨isOpen, vs, split'', derived'', notElse⟩ := readElse.2 elseClean
      refine ⟨isOpen, token :: left :: (ts ++ right :: (us ++ orElse :: vs)), ?_, ?_, notElse⟩
      · simp [split, split', accepted.2.tokens, split'']
      · rw [accepted.2.lastId] at derived''
        -- An open branch would have taken the `else` itself.
        have closed : thenOpen = false := by
          cases thenOpen with
          | false => rfl
          | true =>
            refine absurd ?_ (attached rfl)
            simp [accepted.2.tokens, accepted.1]
        exact .ifElse keyword opening derived closing derived' (fun _ => closed) accepted.1 derived''

end Statements

private theorem printStmt_runs (few : s.tokens.length < bound) (keyword : token.kind = .kwPrint)
    (took : Took token r s) : Runs (printStmt bound) s (ReadsStmt r) := by
  have := took.length
  refine (expression_runs bound few).bind fun e t first read => ?_
  have := read.1
  refine expect_runs.bind fun semi u second mark => .pure ⟨?_, fun clean => ?_⟩
  · have := mark.2.length
    omega
  · obtain ⟨ts, split, derived⟩ := read.2 (by rw [← mark.2.errors, clean, took.errors])
    refine ⟨false, token :: (ts ++ [semi]), ?_, ?_, by simp⟩
    · simp [took.tokens, split, mark.2.tokens]
    · rw [took.lastId] at derived
      rw [mark.2.lastId]
      exact .print keyword derived mark.1

private theorem returnStmt_runs (few : s.tokens.length < bound) (keyword : token.kind = .kwReturn)
    (took : Took token r s) : Runs (returnStmt bound token.line) s (ReadsStmt r) := by
  have := took.length
  refine (expressionUnless_runs few).bind fun e t first read => ?_
  have := first.length_le
  refine expect_runs.bind fun semi u second mark => .pure ⟨?_, fun clean => ?_⟩
  · have := mark.2.length
    omega
  · obtain ⟨ts, split, derived⟩ := read (by rw [← mark.2.errors, clean, took.errors])
    refine ⟨false, token :: (ts ++ [semi]), ?_, ?_, by simp⟩
    · simp [took.tokens, split, mark.2.tokens]
    · rw [took.lastId] at derived
      rw [mark.2.lastId]
      exact .ret keyword derived mark.1

private theorem expressionStmt_reads (few : s.tokens.length < bound) :
    Runs (expressionStmt bound) s (ReadsStmt s) := by
  refine (expressionStmt_runs few).mono fun stmt t _ read => ⟨read.1, fun clean => ?_⟩
  obtain ⟨ts, split, derived⟩ := read.2.1 clean
  exact ⟨false, ts, split, derived, by simp⟩

section Steps

variable {self : Parser Stmt} {declaration : Parser (Option Stmt)} {n : Nat}
  (selfRuns : ∀ s, s.tokens.length < n → Runs self s (ReadsStmt s))
  (declarationRuns : ∀ s, s.tokens ≠ [] → s.tokens.length < n → Runs declaration s (ReadsDecl s))

include selfRuns declarationRuns

private theorem statementStep_runs (few : s.tokens.length < n + 1) :
    Runs (statementStep self declaration (n + 1)) s (ReadsStmt s) := by
  unfold statementStep
  rw [runs_peek_bind]
  cases next : s.tokens with
  | nil => exact expressionStmt_reads few
  | cons token rest =>
    simp only [List.head?_cons]
    split <;> rename_i keyword
    · refine (skip_runs next).bind fun _ t _ took => ?_
      have := took.length
      exact forStmt_runs selfRuns (by omega) keyword took
    · refine (skip_runs next).bind fun _ t _ took => ?_
      have := took.length
      exact ifStmt_runs selfRuns (by omega) keyword took
    · refine (skip_runs next).bind fun _ t _ took => ?_
      have := took.length
      exact printStmt_runs (by omega) keyword took
    · refine (skip_runs next).bind fun _ t _ took => ?_
      have := took.length
      exact returnStmt_runs (by omega) keyword took
    · refine (skip_runs next).bind fun _ t _ took => ?_
      have := took.length
      exact whileStmt_runs selfRuns (by omega) keyword took
    · refine (skip_runs next).bind fun _ t first took => ?_
      have := took.length
      refine (block_runs declarationRuns (n + 1) (by omega) (by omega)).map fun body u second read =>
        ⟨?_, fun clean => ?_⟩
      · have := read.1
        omega
      · obtain ⟨ts, right, split, closing, derived⟩ := read.2 (first.clean second clean).2
        refine ⟨false, token :: (ts ++ [right]), by simp [took.tokens, split], ?_, by simp⟩
        rw [took.lastId] at derived
        exact .block keyword derived closing
    · exact expressionStmt_reads few

private theorem declarationStep_runs (few : s.tokens.length < n + 1) :
    Runs (declarationStep self declaration (n + 1)) s (fun stmt t => Takes (.declaration stmt) s t) := by
  have other : Runs (statementStep self declaration (n + 1)) s
      (fun stmt t => Takes (.declaration stmt) s t) := by
    refine (statementStep_runs selfRuns declarationRuns few).mono fun stmt t _ read =>
      ⟨read.1, fun clean => ?_⟩
    obtain ⟨isOpen, ts, split, derived, -⟩ := read.2 clean
    exact ⟨ts, split, .statement derived⟩
  unfold declarationStep
  rw [runs_peekKind_bind]
  cases next : s.tokens with
  | nil => exact other
  | cons token rest =>
    simp only [List.head?_cons, Option.map_some]
    split <;> rename_i keyword <;> try simp only [Option.some.injEq] at keyword
    · refine (skip_runs next).bind fun _ t _ took => ?_
      have := took.length
      exact classDecl_runs declarationRuns (by omega) keyword took
    · refine (skip_runs next).bind fun _ t first took => ?_
      have := took.length
      refine (functionDecl_runs declarationRuns (by omega)).map fun decl u second read =>
        ⟨?_, fun clean => ?_⟩
      · have := read.1
        omega
      · obtain ⟨ts, split, derived⟩ := read.2 (first.clean second clean).2
        refine ⟨token :: ts, by simp [took.tokens, split], ?_⟩
        rw [took.lastId] at derived
        exact .functionDeclaration keyword derived
    · refine (skip_runs next).bind fun _ t first took => ?_
      have := took.length
      refine (variableDecl_runs (by omega)).mono fun stmt u second read => ⟨?_, fun clean => ?_⟩
      · have := read.1
        omega
      · obtain ⟨ts, split, derived⟩ := read.2 (first.clean second clean).2
        refine ⟨token :: ts, by simp [took.tokens, split], ?_⟩
        rw [took.lastId] at derived
        exact .variableDeclaration keyword derived
    · exact other

end Steps

/-! Recovery and whole programs. -/

private theorem synchronize_suffix (ts : List Token) : synchronize ts <:+ ts := by
  induction ts with
  | nil => exact List.suffix_refl _
  | cons t rest ih =>
    unfold synchronize
    split
    · exact List.suffix_cons t rest
    · exact ih.trans (List.suffix_cons t rest)

private theorem synchronize_length (ts : List Token) : (synchronize ts).length ≤ ts.length - 1 := by
  induction ts with
  | nil => exact Nat.zero_le _
  | cons t rest ih =>
    unfold synchronize
    split
    · simp
    · simp only [List.length_cons]
      omega

/-- A declaration that fails is skipped, and then at least one token is gone. -/
theorem recovering_runs (nonempty : s.tokens ≠ [])
    (step : Runs p s (fun stmt t => Takes (.declaration stmt) s t)) :
    Runs (recovering p) s (ReadsDecl s) := by
  unfold Runs at step ⊢
  unfold recovering
  cases ran : p s with
  | ok stmt t =>
    simp only [ran] at step ⊢
    refine ⟨step.1, step.2.1, fun clean => ?_⟩
    obtain ⟨ts, split, derived⟩ := step.2.2 clean
    exact ⟨stmt, ts, rfl, split, derived⟩
  | error halt t =>
    cases halt with
    | exhausted => simp only [ran] at step
    | syntaxError =>
      simp only [ran] at step ⊢
      refine ⟨⟨(synchronize_suffix _).trans step.1.tokens, step.1.errors, step.1.ids⟩, ?_, fun clean => ?_⟩
      · have := synchronize_length t.tokens
        have := step.1.length_le
        have := List.length_pos_iff.mpr nonempty
        simp only
        omega
      · exact absurd clean step.2

theorem statement_declaration_runs (n : Nat) :
    (∀ s, s.tokens.length < n → Runs (statement n) s (ReadsStmt s)) ∧
    (∀ s, s.tokens ≠ [] → s.tokens.length < n → Runs (declaration n) s (ReadsDecl s)) := by
  induction n with
  | zero => exact ⟨fun _ few => absurd few (Nat.not_lt_zero _), fun _ _ few => absurd few (Nat.not_lt_zero _)⟩
  | succ n ih =>
    refine ⟨fun s few => statementStep_runs ih.1 ih.2 few, fun s nonempty few => ?_⟩
    exact recovering_runs nonempty (declarationStep_runs ih.1 ih.2 few)

theorem program_runs (n : Nat) (few : s.tokens.length < n) :
    Runs (program n) s (fun stmts t => t.tokens = [] ∧ Reads (.declarations stmts) s t) := by
  induction n generalizing s with
  | zero => omega
  | succ n ih =>
    unfold program
    rw [runs_peek_bind]
    cases next : s.tokens with
    | nil => exact .pure ⟨next, fun _ => ⟨[], rfl, .noDeclarations⟩⟩
    | cons token rest =>
      refine ((statement_declaration_runs (n + 1)).2 s (by simp [next]) few).bind
        fun found t first read => ?_
      have := read.1
      refine (ih (by omega)).bind fun stmts u second readRest => .pure ⟨readRest.1, fun clean => ?_⟩
      obtain ⟨declClean, restClean⟩ := first.clean second clean
      obtain ⟨stmt, ts, rfl, split, derived⟩ := read.2 declClean
      obtain ⟨us, split', derived'⟩ := readRest.2 restClean
      exact ⟨ts ++ us, by simp [split, split'], .moreDeclarations derived derived'⟩

/-- Without reports, the tokens derive the statements that are returned. -/
theorem parse_sound (lastId : NodeId) (scan : Scan) (clean : (parse lastId scan).errors = []) :
    Derives .nearest (.declarations (parse lastId scan).statements) scan.tokens lastId
      (parse lastId scan).lastId := by
  have runs := program_runs (s := ⟨scan.tokens, scan.endLine, lastId, []⟩) (scan.tokens.length + 1)
    (Nat.lt_succ_self _)
  unfold parse at clean ⊢
  unfold Runs at runs
  cases ran : program (scan.tokens.length + 1) ⟨scan.tokens, scan.endLine, lastId, []⟩ with
  | ok stmts t =>
    simp only [ran] at runs clean ⊢
    obtain ⟨ts, split, derived⟩ := runs.2.2 clean
    simp only [runs.2.1, List.append_nil] at split
    exact split ▸ derived
  | error halt t =>
    cases halt with
    | exhausted => simp only [ran] at runs
    | syntaxError =>
      simp only [ran] at runs clean
      exact absurd clean runs.2

/-- Identities count up, whether or not the program can be read. -/
theorem lastId_le_parse (lastId : NodeId) (scan : Scan) : lastId ≤ (parse lastId scan).lastId := by
  have runs := program_runs (s := ⟨scan.tokens, scan.endLine, lastId, []⟩) (scan.tokens.length + 1)
    (Nat.lt_succ_self _)
  unfold parse
  unfold Runs at runs
  cases ran : program (scan.tokens.length + 1) ⟨scan.tokens, scan.endLine, lastId, []⟩ with
  | ok stmts t =>
    simp only [ran] at runs ⊢
    exact runs.1.ids
  | error halt t =>
    cases halt with
    | exhausted => simp only [ran] at runs
    | syntaxError =>
      simp only [ran] at runs ⊢
      exact runs.1.ids

end Lox.Parse
