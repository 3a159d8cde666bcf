import Lox.Proofs.Tree.Cursor
import Lox.Proofs.Tree.Soundness

/-! Parsing stays within the table of tokens. A parser with a position does what the parser of the remaining
tokens does; it never looks outside of the table, and every call that reads a declaration moves on. -/
namespace Lox.Cursor

open Parse (errorAt constant?)

/-- The table is made of these tokens and the end, and the position is in it. -/
structure Within (all : List Token) (line : Nat) (c : State) : Prop where
  nonempty : all ≠ []
  entries : c.entries = all.map .token ++ [.eof line]
  current : c.current ≤ all.length

/-- From one state to another `k` tokens or more are taken, and every call in between takes one. -/
structure Onward (all : List Token) (k : Nat) (c d : State) : Prop where
  position : c.current + k ≤ d.current
  calls : ∃ made, d.calls = c.calls ++ made ∧ ∀ call ∈ made, call.start < call.finish ∧ call.finish ≤ all.length

namespace Onward

variable {all : List Token} {k m : Nat} {c d e : State}

/-- No call is made. -/
theorem of_calls (position : c.current + k ≤ d.current) (calls : d.calls = c.calls) : Onward all k c d :=
  ⟨position, [], by rw [calls, List.append_nil], nofun⟩

private theorem refl (c : State) : Onward all 0 c c := of_calls (Nat.le_refl _) rfl

private theorem trans (first : Onward all k c d) (second : Onward all m d e) : Onward all (k + m) c e := by
  obtain ⟨made, calls, sound⟩ := first.calls
  obtain ⟨more, calls', sound'⟩ := second.calls
  have position := first.position
  have position' := second.position
  refine ⟨by omega, made ++ more, by rw [calls', calls, List.append_assoc], ?_⟩
  exact List.forall_mem_append.2 ⟨sound, sound'⟩

private theorem weaken (onward : Onward all k c d) (fewer : m ≤ k) : Onward all m c d :=
  ⟨Nat.le_trans (Nat.add_le_add_left fewer _) onward.position, onward.calls⟩

end Onward

/-- What is left to read. -/
def State.remaining (all : List Token) (line : Nat) (c : State) : Parse.State :=
  ⟨all.drop c.current, line, c.lastId, c.errors⟩

/-- Both parsers end in the same way. On success `k` tokens or more have been taken since `c`. -/
inductive Matched (all : List Token) (line k : Nat) (c : State) {α : Type} :
    EStateM.Result Parse.Halt Parse.State α → EStateM.Result Halt State α → Prop where
  | ok (a : α) {d : State} (within : Within all line d) (onward : Onward all k c d) :
      Matched all line k c (.ok a (d.remaining all line)) (.ok a d)
  | syntaxError {d : State} (within : Within all line d) (onward : Onward all 0 c d) :
      Matched all line k c (.error .syntaxError (d.remaining all line)) (.error .syntaxError d)
  | exhausted {t : Parse.State} {d : State} : Matched all line k c (.error .exhausted t) (.error .exhausted d)

namespace Matched

variable {all : List Token} {line k : Nat} {c : State}

/-- From a state further on. -/
theorem later {x : EStateM.Result Parse.Halt Parse.State α} {y : EStateM.Result Halt State α}
    (first : Onward all k c d) (both : Matched all line m d x y) : Matched all line (k + m) c x y := by
  cases both with
  | ok a within second => exact .ok a within (first.trans second)
  | syntaxError within second => exact .syntaxError within ((first.trans second).weaken (Nat.zero_le _))
  | exhausted => exact .exhausted

private theorem weaken {x : EStateM.Result Parse.Halt Parse.State α} {y : EStateM.Result Halt State α}
    (both : Matched all line k c x y) (fewer : m ≤ k) : Matched all line m c x y := by
  cases both with
  | ok a within onward => exact .ok a within (onward.weaken fewer)
  | syntaxError within onward => exact .syntaxError within onward
  | exhausted => exact .exhausted

/-- What follows on a success. -/
theorem bind {p : Parse.Parser α} {q : Parser α} {f : α → Parse.Parser β} {g : α → Parser β}
    (first : Matched all line k c (p s) (q c))
    (next : ∀ a d, Within all line d → Matched all line m d (f a (d.remaining all line)) (g a d)) :
    Matched all line (k + m) c ((p >>= f) s) ((q >>= g) c) := by
  simp only [Bind.bind, EStateM.bind]
  generalize p s = x at first
  generalize q c = y at first
  cases first with
  | @ok a d within onward => exact (next a d within).later onward
  | syntaxError within onward => exact .syntaxError within onward
  | exhausted => exact .exhausted

end Matched

/-- The parser with a position does what the other one does, wherever this token comes next. -/
def FollowsAt (all : List Token) (line : Nat) (next : Option Token) (k : Nat) (p : Parse.Parser α) (q : Parser α) :
    Prop :=
  ∀ c, Within all line c → all[c.current]? = next → Matched all line k c (p (c.remaining all line)) (q c)

/-- It does so everywhere. -/
def Follows (all : List Token) (line k : Nat) (p : Parse.Parser α) (q : Parser α) : Prop :=
  ∀ next, FollowsAt all line next k p q

section Steps

variable {all : List Token} {line k : Nat} {c : State} {next : Option Token}

private theorem FollowsAt.weaken {p : Parse.Parser α} {q : Parser α} (takes : FollowsAt all line next k p q) :
    FollowsAt all line next 0 p q :=
  fun c within here => (takes c within here).weaken (Nat.zero_le k)

namespace Follows

private theorem pure (a : α) : Follows all line 0 (pure a) (pure a) := fun _ c within _ => .ok a within (.refl c)

private theorem exhausted : Follows all line k (Parse.exhausted : Parse.Parser α) exhausted := fun _ _ _ _ => .exhausted

private theorem bind {p : Parse.Parser α} {f : α → Parse.Parser β} {g : α → Parser β} (first : Follows all line k p q)
    (next : ∀ a, Follows all line 0 (f a) (g a)) : Follows all line k (p >>= f) (q >>= g) :=
  fun _ c within here => (first _ c within here).bind fun a d within => next a _ d within rfl

/-- The tokens are taken by what comes later. -/
theorem after {p : Parse.Parser α} {f : α → Parse.Parser β} {g : α → Parser β} (first : Follows all line 0 p q)
    (next : ∀ a, Follows all line k (f a) (g a)) : Follows all line k (p >>= f) (q >>= g) := by
  intro _ c within here
  have both := (first _ c within here).bind fun a d within => next a _ d within rfl
  rwa [Nat.zero_add] at both

private theorem map {p : Parse.Parser α} (f : α → β) (first : Follows all line k p q) :
    Follows all line k (f <$> p) (f <$> q) := by
  rw [map_eq_pure_bind, map_eq_pure_bind]
  exact first.bind fun a => .pure (f a)

private theorem weaken {p : Parse.Parser α} {q : Parser α} (takes : Follows all line k p q) : Follows all line 0 p q :=
  fun next => (takes next).weaken

/-- A parser can be looked at for each token that may come next. -/
theorem cases {p : Parse.Parser α} {q : Parser α} (none : FollowsAt all line none k p q)
    (some : ∀ t, FollowsAt all line (some t) k p q) : Follows all line k p q
  | .none => none
  | .some t => some t

end Follows

private theorem FollowsAt.bind {p : Parse.Parser α} {f : α → Parse.Parser β} {g : α → Parser β}
    (first : FollowsAt all line next k p q) (rest : ∀ a, Follows all line 0 (f a) (g a)) :
    FollowsAt all line next k (p >>= f) (q >>= g) :=
  fun c within here => (first c within here).bind fun a d within => rest a _ d within rfl

/-! Single entries. -/

/-- The entry of what comes next. -/
def entryOf (line : Nat) : Option Token → Entry
  | none => .eof line
  | some t => .token t

private theorem Within.entry (within : Within all line c) :
    c.entries[c.current]? = some (entryOf line all[c.current]?) := by
  rw [within.entries]
  by_cases inside : c.current < all.length
  · rw [List.getElem?_append_left (by simpa using inside), List.getElem?_map, List.getElem?_eq_getElem inside]
    rfl
  · have last : c.current = all.length := Nat.le_antisymm within.current (Nat.le_of_not_lt inside)
    rw [last, List.getElem?_append_right (by simp), List.getElem?_eq_none (Nat.le_refl _)]
    simp [entryOf]

private theorem bind_eq {p : Parser α} {f : α → Parser β} (ran : p c = .ok a d) : (p >>= f) c = f a d := by
  simp only [Bind.bind, EStateM.bind, ran]

private theorem peek_eq (within : Within all line c) (here : all[c.current]? = next) :
    peek c = .ok (entryOf line next) c := by
  have found : entryAt c.current c = .ok (entryOf line next) c := by
    simp only [entryAt, within.entry, here]
  exact found

private theorem isAtEnd_eq (within : Within all line c) (here : all[c.current]? = next) :
    isAtEnd c = .ok next.isNone c := by
  rw [isAtEnd, bind_eq (peek_eq within here)]
  cases next <;> rfl

private theorem check_eq (within : Within all line c) (here : all[c.current]? = next) (kind : TokenKind) :
    check kind c = .ok (next.map (·.kind) = some kind) c := by
  rw [check, bind_eq (isAtEnd_eq within here)]
  cases next with
  | none => rfl
  | some t => exact bind_eq (peek_eq within here)

/-- The position one further on. -/
def State.moved (c : State) : State := { c with current := c.current + 1 }

private theorem Within.moved (within : Within all line c) (here : all[c.current]? = some t) :
    Within all line c.moved := by
  obtain ⟨inside, -⟩ := List.getElem?_eq_some_iff.1 here
  exact ⟨within.nonempty, within.entries, inside⟩

private theorem Onward.moved (c : State) : Onward all 1 c c.moved := of_calls (Nat.le_refl _) rfl

private theorem drop_moved (here : all[c.current]? = some t) : all.drop c.current = t :: all.drop c.moved.current := by
  obtain ⟨inside, rfl⟩ := List.getElem?_eq_some_iff.1 here
  exact List.drop_eq_getElem_cons inside

/-- What is behind a position that is not the first. -/
theorem previous_eq (within : Within all line c) (here : c.current = i + 1) :
    ∃ t, all[i]? = some t ∧ previous c = .ok (.token t) c := by
  have inside : i < all.length := Nat.lt_of_lt_of_le (by omega) within.current
  refine ⟨all[i], List.getElem?_eq_getElem inside, ?_⟩
  have entry : c.entries[i]? = some (.token all[i]) := by
    rw [within.entries, List.getElem?_append_left (by simpa using inside), List.getElem?_map,
      List.getElem?_eq_getElem inside]
    rfl
  have position : (c.current : Int) - 1 = Int.ofNat i := by
    rw [here]
    simp
  have found : entryAt ((c.current : Int) - 1) c = .ok (.token all[i]) c := by
    rw [position]
    simp only [entryAt, entry]
  exact found

private theorem advance_eq (within : Within all line c) (here : all[c.current]? = some t) :
    advance c = .ok (.token t) c.moved := by
  obtain ⟨u, behind, back⟩ := previous_eq (within.moved here) rfl
  rw [here] at behind
  cases behind
  rw [advance, bind_eq (isAtEnd_eq within here)]
  exact back

/-- At the end there is an entry behind, since there are tokens. -/
theorem advance_end (within : Within all line c) (here : all[c.current]? = none) :
    ∃ e, advance c = .ok e c := by
  have last : c.current = all.length := Nat.le_antisymm within.current (List.getElem?_eq_none_iff.1 here)
  obtain ⟨i, some⟩ := Nat.exists_eq_succ_of_ne_zero fun zero =>
    within.nonempty (List.length_eq_zero_iff.1 (last.symm.trans zero))
  obtain ⟨t, -, back⟩ := previous_eq within some
  refine ⟨.token t, ?_⟩
  rw [advance, bind_eq (isAtEnd_eq within here)]
  exact back

private theorem remaining_some (here : all[c.current]? = some t) :
    c.remaining all line = ⟨t :: (c.moved.remaining all line).tokens, line, c.lastId, c.errors⟩ := by
  rw [State.remaining, drop_moved here]
  rfl

private theorem remaining_none (here : all[c.current]? = none) :
    c.remaining all line = ⟨[], line, c.lastId, c.errors⟩ := by
  rw [State.remaining, List.drop_eq_nil_of_le (List.getElem?_eq_none_iff.1 here)]

private theorem parse_bind {p : Parse.Parser α} {f : α → Parse.Parser β} (ran : p s = .ok a t) :
    (p >>= f) s = f a t := by
  simp only [Bind.bind, EStateM.bind, ran]

private theorem parse_peek (here : all[c.current]? = next) :
    Parse.peek (c.remaining all line) = .ok next (c.remaining all line) := by
  rw [← here, ← List.head?_drop]
  rfl

private theorem parse_peekKind (here : all[c.current]? = next) :
    Parse.peekKind (c.remaining all line) = .ok (next.map (·.kind)) (c.remaining all line) := by
  rw [← here, ← List.head?_drop]
  rfl

private theorem parse_skip (here : all[c.current]? = some t) :
    Parse.skip (c.remaining all line) = .ok () (c.moved.remaining all line) := by
  rw [remaining_some here]
  rfl

namespace FollowsAt

variable {t : Token}

private theorem sees {f : Option Token → Parse.Parser α} (rest : FollowsAt all line next k (f next) q) :
    FollowsAt all line next k (Parse.peek >>= f) q := by
  intro c within here
  rw [parse_bind (parse_peek here)]
  exact rest c within here

private theorem seesKind {f : Option TokenKind → Parse.Parser α}
    (rest : FollowsAt all line next k (f (next.map (·.kind))) q) :
    FollowsAt all line next k (Parse.peekKind >>= f) q := by
  intro c within here
  rw [parse_bind (parse_peekKind here)]
  exact rest c within here

private theorem peeks {p : Parse.Parser α} {g : Entry → Parser α}
    (rest : FollowsAt all line next k p (g (entryOf line next))) :
    FollowsAt all line next k p (peek >>= g) := by
  intro c within here
  rw [bind_eq (peek_eq within here)]
  exact rest c within here

private theorem checks {p : Parse.Parser α} {g : Bool → Parser α}
    (rest : FollowsAt all line next k p (g (next.map (·.kind) = some kind))) :
    FollowsAt all line next k p (check kind >>= g) := by
  intro c within here
  rw [bind_eq (check_eq within here kind)]
  exact rest c within here

/-- A token that comes next is taken. -/
theorem skip {p : Parse.Parser α} {g : Entry → Parser α} (rest : Follows all line 0 p (g (.token t))) :
    FollowsAt all line (some t) 1 (Parse.skip >>= fun _ => p) (advance >>= g) := by
  intro c within here
  rw [parse_bind (parse_skip here), bind_eq (advance_eq within here)]
  exact (rest _ c.moved (within.moved here) rfl).later (.moved c)

end FollowsAt

private theorem parse_takes {f : Token → Option α} (here : all[c.current]? = some t) (chosen : f t = some a) :
    Parse.acceptBy f (c.remaining all line) = .ok (some a) (c.moved.remaining all line) := by
  rw [remaining_some here]
  simp only [Parse.acceptBy, chosen]
  rfl

private theorem parse_leaves {f : Token → Option α} (here : all[c.current]? = next) (refused : next.bind f = none) :
    Parse.acceptBy f (c.remaining all line) = .ok none (c.remaining all line) := by
  cases next with
  | none =>
    rw [remaining_none here]
    rfl
  | some t =>
    rw [remaining_some here]
    simp only [Parse.acceptBy, show f t = none from refused]

private theorem acceptBy_takes {f : Token → Option α} (within : Within all line c) (here : all[c.current]? = some t)
    (chosen : f t = some a) : acceptBy f c = .ok (some a) c.moved := by
  rw [acceptBy, bind_eq (peek_eq within here), if_pos (by simp [entryOf, Entry.token?, chosen]),
    bind_eq (advance_eq within here), ← chosen]
  rfl

private theorem acceptBy_leaves {f : Token → Option α} (within : Within all line c) (here : all[c.current]? = next)
    (refused : next.bind f = none) : acceptBy f c = .ok none c := by
  have same : (entryOf line next).token? = next := by cases next <;> rfl
  rw [acceptBy, bind_eq (peek_eq within here), if_neg (by simp [same, refused])]
  rfl

namespace FollowsAt

variable {t : Token}

private theorem leaves {p : Parse.Parser α} {f : Token → Option β} {g : Option β → Parser α}
    (refused : next.bind f = none)
    (rest : FollowsAt all line next k p (g none)) : FollowsAt all line next k p (acceptBy f >>= g) := by
  intro c within here
  rw [bind_eq (acceptBy_leaves within here refused)]
  exact rest c within here

private theorem takes {p : Parse.Parser α} {f : Token → Option β} {g : Option β → Parser α} (chosen : f t = some b)
    (rest : Follows all line 0 p (g (some b))) :
    FollowsAt all line (some t) 1 (Parse.skip >>= fun _ => p) (acceptBy f >>= g) := by
  intro c within here
  rw [parse_bind (parse_skip here), bind_eq (acceptBy_takes within here chosen)]
  exact (rest _ c.moved (within.moved here) rfl).later (.moved c)

end FollowsAt

/-- A token is taken by both if there is an answer for it. -/
theorem acceptBy_follows (f : Token → Option α) : Follows all line 0 (Parse.acceptBy f) (acceptBy f) := by
  intro next c within here
  cases answer : next.bind f with
  | none =>
    rw [parse_leaves here answer, acceptBy_leaves within here answer]
    exact .ok none within (.refl c)
  | some a =>
    obtain ⟨t, rfl, chosen⟩ := Option.bind_eq_some_iff.1 answer
    rw [parse_takes here chosen, acceptBy_takes within here chosen]
    exact .ok (some a) (within.moved here) ((Onward.moved c).weaken (Nat.zero_le 1))

private theorem reportAt_follows (cause : StaticCause) (next : Option Token) :
    Follows all line 0 (Parse.reportAt cause next) (reportAt cause (entryOf line next)) := by
  intro _ c within _
  have same : errorAt cause line next = errorAt cause (entryOf line next).line (entryOf line next).token? := by
    cases next <;> rfl
  have reported : Parse.reportAt cause next (c.remaining all line) =
      .ok () (({ c with errors := c.errors ++ [errorAt cause (entryOf line next).line (entryOf line next).token?] } :
        State).remaining all line) := by
    rw [← same]
    rfl
  rw [reported]
  exact .ok () ⟨within.nonempty, within.entries, within.current⟩ (.of_calls (Nat.le_refl _) rfl)

private theorem report_follows (cause : StaticCause) : Follows all line 0 (Parse.report cause) (report cause) :=
  fun next => .sees (.peeks (reportAt_follows cause next next))

private theorem fail_follows (cause : StaticCause) :
    Follows all line k (Parse.fail cause : Parse.Parser α) (fail cause) := by
  refine (report_follows cause).after fun _ _ c within _ => ?_
  exact .syntaxError within (.refl c)

private theorem checkLength_follows (cause : StaticCause) (count : Nat) :
    Follows all line 0 (Parse.checkLength cause count) (checkLength cause count) := by
  unfold Parse.checkLength checkLength
  split
  · exact report_follows cause
  · exact .pure ()

private theorem freshId_follows : Follows all line 0 Parse.freshId freshId := by
  intro _ c within _
  have fresh : Within all line { c with lastId := c.lastId + 1 } :=
    ⟨within.nonempty, within.entries, within.current⟩
  exact .ok (c.lastId + 1) fresh (.of_calls (Nat.le_refl _) rfl)

private theorem parse_accepts (here : all[c.current]? = some t) :
    Parse.accept t.kind (c.remaining all line) = .ok (some t) (c.moved.remaining all line) :=
  parse_takes here (if_pos rfl)

private theorem parse_refuses (here : all[c.current]? = next) (other : next.map (·.kind) ≠ some kind) :
    Parse.accept kind (c.remaining all line) = .ok none (c.remaining all line) := by
  refine parse_leaves here ?_
  cases next with
  | none => rfl
  | some t => exact if_neg fun same => other (congrArg some same)

private theorem parse_fail_bind (cause : StaticCause) (f : α → Parse.Parser β) :
    Parse.fail cause >>= f = Parse.fail cause := by
  rw [Parse.fail, bind_assoc]
  rfl

private theorem fail_bind (cause : StaticCause) (g : α → Parser β) : fail cause >>= g = fail cause := by
  rw [fail, bind_assoc]
  rfl

namespace Follows

variable {kind : TokenKind}

/-- A token of the given kind is taken by both. -/
theorem accept {f : Option Token → Parse.Parser α} {g : Option Entry → Parser α}
    (left : Follows all line k (f none) (g none))
    (taken : ∀ t, Follows all line k (f (some t)) (g (some (.token t)))) :
    Follows all line k (Parse.accept kind >>= f) (Cursor.accept kind >>= g) := by
  intro next c within here
  have checked := check_eq within here kind
  by_cases same : next.map (·.kind) = some kind
  · obtain ⟨t, rfl, rfl⟩ := Option.map_eq_some_iff.1 same
    have ran : Cursor.accept t.kind c = .ok (some (.token t)) c.moved := by
      rw [Cursor.accept, bind_eq checked, if_pos (decide_eq_true same), bind_eq (advance_eq within here)]
      rfl
    rw [parse_bind (parse_accepts here), bind_eq ran]
    have rest := taken t _ c.moved (within.moved here) rfl
    exact (rest.later (.moved c)).weaken (Nat.le_add_left k 1)
  · have ran : Cursor.accept kind c = .ok none c := by
      rw [Cursor.accept, bind_eq checked, if_neg (by simpa using same)]
      rfl
    rw [parse_bind (parse_refuses here same), bind_eq ran]
    exact left next c within here

/-- A token that has to be there is taken by both, or both report it. -/
theorem consume {f : Token → Parse.Parser α} {g : Entry → Parser α} {cause : StaticCause}
    (rest : ∀ t, Follows all line 0 (f t) (g (.token t))) :
    Follows all line 1 (Parse.expect kind cause >>= f) (Cursor.consume kind cause >>= g) := by
  intro next c within here
  have checked := check_eq within here kind
  by_cases same : next.map (·.kind) = some kind
  · obtain ⟨t, rfl, rfl⟩ := Option.map_eq_some_iff.1 same
    have read : Parse.expect t.kind cause (c.remaining all line) = .ok t (c.moved.remaining all line) :=
      parse_bind (parse_accepts here)
    have ran : Cursor.consume t.kind cause c = .ok (.token t) c.moved := by
      rw [Cursor.consume, bind_eq checked, if_pos (decide_eq_true same), advance_eq within here]
    rw [parse_bind read, bind_eq ran]
    exact (rest t _ c.moved (within.moved here) rfl).later (.moved c)
  · have read : (Parse.expect kind cause >>= f) (c.remaining all line) =
        Parse.fail cause (c.remaining all line) := by
      rw [Parse.expect, bind_assoc, parse_bind (parse_refuses here same), parse_fail_bind]
    have ran : (Cursor.consume kind cause >>= g) c = Cursor.fail cause c := by
      rw [Cursor.consume, bind_assoc, bind_eq checked, if_neg (by simpa using same), fail_bind]
    rw [read, ran]
    exact fail_follows cause next c within here

private theorem expected {f : Token → Parse.Parser α} {g : Entry → Parser α} {cause : StaticCause}
    (rest : ∀ t, Follows all line 0 (f t) (g (.token t))) :
    Follows all line 0 (Parse.expect kind cause >>= f) (Cursor.consume kind cause >>= g) := (consume rest).weaken

end Follows

/-! Expressions. -/

section Expressions

variable {p : Parse.Parser Expr} {q : Parser Expr} (whole : Follows all line 1 p q)

include whole

private theorem primary_follows : Follows all line 1 (Parse.primary p) (primary q) := by
  refine .cases ?_ fun t => ?_
  · exact .sees (.leaves rfl (.peeks (fail_follows _ _)))
  · refine .sees ?_
    cases value : constant? t with
    | some v =>
      simp only [value]
      exact .takes value (.pure _)
    | none =>
      simp only [value]
      refine .leaves value (.peeks ?_)
      obtain ⟨kind, lexeme, number⟩ := t
      cases kind
      case kwSuper =>
        exact .skip (.expected fun dot => .expected fun method => freshId_follows.bind fun id => .pure _)
      case kwThis => exact .skip (freshId_follows.bind fun id => .pure _)
      case identifier => exact .skip (freshId_follows.bind fun id => .pure _)
      case leftParen => exact .skip (whole.weaken.bind fun e => .expected fun close => .pure _)
      all_goals exact fail_follows _ _

private theorem arguments_follows (n count : Nat) :
    Follows all line 0 (Parse.arguments p n count) (arguments q n count) := by
  induction n generalizing count with
  | zero => exact .exhausted
  | succ n ih =>
    refine (checkLength_follows _ count).bind fun _ => whole.weaken.bind fun e => ?_
    refine .accept (.pure _) fun comma => ?_
    exact (ih (count + 1)).bind fun rest => .pure _

private theorem argumentList_follows (n : Nat) : Follows all line 0 (Parse.argumentList p n) (argumentList q n) := by
  intro next
  refine .seesKind (.checks ?_)
  by_cases closed : next.map (·.kind) = some .rightParen
  · simp only [closed, if_true, decide_true]
    exact Follows.pure _ _
  · simp only [closed, if_false, decide_false, Bool.false_eq_true]
    exact arguments_follows whole n 0 _

private theorem callTail_follows (n : Nat) (e : Expr) : Follows all line 0 (Parse.callTail p n e) (callTail q n e) := by
  induction n generalizing e with
  | zero => exact .exhausted
  | succ n ih =>
    refine .cases ?_ fun t => ?_
    · exact .seesKind (.peeks (Follows.pure _ _))
    · refine .seesKind (.peeks ?_)
      obtain ⟨kind, lexeme, number⟩ := t
      cases kind
      case leftParen =>
        refine (FollowsAt.skip ?_).weaken
        exact (argumentList_follows whole (n + 1)).bind fun args => .expected fun close => ih _
      case dot => exact (FollowsAt.skip (.expected fun name => ih _)).weaken
      all_goals exact Follows.pure _ _

private theorem call_follows (n : Nat) : Follows all line 1 (Parse.call p n) (call q n) :=
  (primary_follows whole).bind fun e => callTail_follows whole n e

private theorem unary_follows (n m : Nat) : Follows all line 1 (Parse.unary p n m) (unary q n m) := by
  induction m with
  | zero => exact .exhausted
  | succ m ih =>
    refine (acceptBy_follows _).after fun found => ?_
    cases found with
    | none => exact call_follows whole n
    | some op => exact ih.bind fun operand => .pure _

omit whole in
private theorem chain_follows (op : Parse.Joiner) (operand : Follows all line 1 p q) (n : Nat) (left : Expr) :
    Follows all line 0 (Parse.chain op p n left) (chain op q n left) := by
  induction n generalizing left with
  | zero => exact .exhausted
  | succ n ih =>
    refine (acceptBy_follows op).bind fun found => ?_
    cases found with
    | none => exact .pure left
    | some join => exact operand.weaken.bind fun right => ih _

omit whole in
private theorem level_follows (op : Parse.Joiner) (operand : Follows all line 1 p q) (n : Nat) :
    Follows all line 1 (Parse.level n op p) (level n op q) :=
  operand.bind fun left => chain_follows op operand n left

private theorem operators_follows (n : Nat) : Follows all line 1 (Parse.operators p n) (operators q n) :=
  level_follows _ (level_follows _ (level_follows _ (level_follows _ (level_follows _ (level_follows _
    (unary_follows whole n n) n) n) n) n) n) n

private theorem assignment_follows (n : Nat) : Follows all line 1 (Parse.assignment p n) (assignment q n) := by
  refine (operators_follows whole n).bind fun target => .accept (.pure target) fun equal => ?_
  refine whole.weaken.bind fun value => ?_
  cases target
  case use ref => exact freshId_follows.bind fun id => .pure _
  case get object name => exact .pure _
  all_goals exact (reportAt_follows _ (some equal)).bind fun _ => .pure _

end Expressions

private theorem expression_follows (n : Nat) : Follows all line 1 (Parse.expression n) (expression n) := by
  induction n with
  | zero => exact .exhausted
  | succ n ih => exact assignment_follows ih (n + 1)

private theorem expressionUnless_follows (stop : TokenKind) (n : Nat) :
    Follows all line 0 (Parse.expressionUnless stop n) (expressionUnless stop n) := by
  intro next
  refine .seesKind (.checks ?_)
  by_cases stopped : next.map (·.kind) = some stop
  · simp only [stopped, if_true, decide_true]
    exact Follows.pure _ _
  · simp only [stopped, if_false, decide_false, Bool.false_eq_true]
    exact (expression_follows n).weaken.map some _

/-! Statements. -/

private theorem expressionStmt_follows (n : Nat) : Follows all line 1 (Parse.expressionStmt n) (expressionStmt n) :=
  (expression_follows n).bind fun _ => .expected fun _ => .pure _

private theorem initializer_follows (n : Nat) : Follows all line 0 (Parse.initializer n) (initializer n) :=
  .accept (.pure none) fun _ => (expression_follows n).weaken.map some

private theorem variableDecl_follows (n : Nat) : Follows all line 1 (Parse.variableDecl n) (variableDecl n) :=
  .consume fun _ => (initializer_follows n).bind fun _ => .expected fun _ => .pure _

private theorem parameters_follows (n count : Nat) :
    Follows all line 0 (Parse.parameters n count) (parameters n count) := by
  induction n generalizing count with
  | zero => exact .exhausted
  | succ n ih =>
    refine (checkLength_follows _ count).bind fun _ => .expected fun name => ?_
    exact .accept (.pure _) fun comma => (ih (count + 1)).bind fun rest => .pure _

private theorem parameterList_follows (n : Nat) : Follows all line 0 (Parse.parameterList n) (parameterList n) := by
  intro next
  refine .seesKind (.checks ?_)
  by_cases closed : next.map (·.kind) = some .rightParen
  · simp only [closed, if_true, decide_true]
    exact Follows.pure _ _
  · simp only [closed, if_false, decide_false, Bool.false_eq_true]
    exact parameters_follows n 0 _

private theorem superclass_follows : Follows all line 0 Parse.superclass superclass :=
  .accept (.pure none) fun _ => .expected fun _ => freshId_follows.bind fun _ => .pure _

private theorem forInitializer_follows (n : Nat) : Follows all line 0 (Parse.forInitializer n) (forInitializer n) := by
  refine .cases ?_ fun t => ?_
  · exact .seesKind (.peeks ((expressionStmt_follows n).weaken.map some _))
  · refine .seesKind (.peeks ?_)
    obtain ⟨kind, lexeme, number⟩ := t
    cases kind
    case semicolon => exact (FollowsAt.skip (.pure none)).weaken
    case kwVar => exact (FollowsAt.skip ((variableDecl_follows n).weaken.map some)).weaken
    all_goals exact (expressionStmt_follows n).weaken.map some _

private theorem printStmt_follows (n : Nat) : Follows all line 0 (Parse.printStmt n) (printStmt n) :=
  (expression_follows n).weaken.bind fun _ => .expected fun _ => .pure _

private theorem returnStmt_follows (n : Nat) (keyword : Token) :
    Follows all line 0 (Parse.returnStmt n keyword.line) (returnStmt n (.token keyword)) :=
  (expressionUnless_follows _ n).bind fun _ => .expected fun _ => .pure _

private theorem closing_brace_follows (cause : StaticCause) (a : α) : Follows all line 1
    (do let _ ← Parse.expect .rightBrace cause; pure a) (do let _ ← consume .rightBrace cause; pure a) :=
  .consume fun _ => .pure a

section Statements

variable {self : Parse.Parser Stmt} {self' : Parser Stmt} (again : Follows all line 1 self self')
  {decl : Parse.Parser (Option Stmt)} {decl' : Parser (Option Stmt)}
  (onward : ∀ t, FollowsAt all line (some t) 1 decl decl')

include onward

private theorem block_follows (n : Nat) : Follows all line 1 (Parse.block decl n) (block decl' n) := by
  induction n with
  | zero => exact .exhausted
  | succ n ih =>
    refine .cases ?_ fun t => ?_
    · exact .seesKind (.peeks (closing_brace_follows _ _ _))
    · refine .seesKind (.peeks ?_)
      obtain ⟨kind, lexeme, number⟩ := t
      cases kind
      case rightBrace => exact closing_brace_follows _ _ _
      all_goals exact (onward _).bind fun s => ih.weaken.bind fun rest => .pure _

private theorem functionDecl_follows (n : Nat) (kind : FunctionKind) :
    Follows all line 1 (Parse.functionDecl decl n kind) (functionDecl decl' n kind) := by
  refine .consume fun name => .expected fun parens => (parameterList_follows n).bind fun params => ?_
  exact .expected fun parens => .expected fun brace => (block_follows onward n).weaken.bind fun body => .pure _

private theorem methods_follows (m n : Nat) : Follows all line 1 (Parse.methods decl m n) (methods decl' m n) := by
  induction n with
  | zero => exact .exhausted
  | succ n ih =>
    refine .cases ?_ fun t => ?_
    · exact .seesKind (.peeks (closing_brace_follows _ _ _))
    · refine .seesKind (.peeks ?_)
      obtain ⟨kind, lexeme, number⟩ := t
      cases kind
      case rightBrace => exact closing_brace_follows _ _ _
      all_goals
        exact (functionDecl_follows onward m .method).bind (fun method => ih.weaken.bind fun rest => .pure _) _

private theorem classDecl_follows (n : Nat) : Follows all line 1 (Parse.classDecl decl n) (classDecl decl' n) := by
  refine .consume fun name => superclass_follows.bind fun superclass => .expected fun brace => ?_
  exact (methods_follows onward n n).weaken.bind fun methods => .pure _

include again

omit onward in
private theorem forStmt_follows (n : Nat) : Follows all line 1 (Parse.forStmt self n) (forStmt self' n) := by
  refine .consume fun parens => (forInitializer_follows n).bind fun initializer => ?_
  refine (expressionUnless_follows _ n).bind fun condition => .expected fun semicolon => ?_
  refine (expressionUnless_follows _ n).bind fun increment => .expected fun parens => ?_
  exact again.weaken.bind fun body => .pure _

omit onward in
private theorem ifStmt_follows (n : Nat) : Follows all line 1 (Parse.ifStmt self n) (ifStmt self' n) := by
  refine .consume fun parens => (expression_follows n).weaken.bind fun condition => .expected fun parens => ?_
  refine again.weaken.bind fun thenBranch => .accept (.pure _) fun keyword => ?_
  exact again.weaken.bind fun elseBranch => .pure _

omit onward in
private theorem whileStmt_follows (n : Nat) : Follows all line 1 (Parse.whileStmt self n) (whileStmt self' n) := by
  refine .consume fun parens => (expression_follows n).weaken.bind fun condition => .expected fun parens => ?_
  exact again.weaken.bind fun body => .pure _

private theorem statementStep_follows (n : Nat) :
    Follows all line 1 (Parse.statementStep self decl n) (statementStep self' decl' n) := by
  refine .cases ?_ fun t => ?_
  · exact .sees (.peeks (expressionStmt_follows n _))
  · refine .sees (.peeks ?_)
    obtain ⟨kind, lexeme, number⟩ := t
    cases kind
    case kwFor => exact .skip (forStmt_follows again n).weaken
    case kwIf => exact .skip (ifStmt_follows again n).weaken
    case kwPrint => exact .skip (printStmt_follows n)
    case kwReturn => exact .skip (returnStmt_follows n _)
    case kwWhile => exact .skip (whileStmt_follows again n).weaken
    case leftBrace => exact .skip ((block_follows onward n).weaken.map _)
    all_goals exact expressionStmt_follows n _

private theorem declarationStep_follows (n : Nat) :
    Follows all line 1 (Parse.declarationStep self decl n) (declarationStep self' decl' n) := by
  refine .cases ?_ fun t => ?_
  · exact .seesKind (.peeks (statementStep_follows again onward n _))
  · refine .seesKind (.peeks ?_)
    obtain ⟨kind, lexeme, number⟩ := t
    cases kind
    case kwClass => exact .skip (classDecl_follows onward n).weaken
    case kwFun => exact .skip ((functionDecl_follows onward n .function).weaken.map _)
    case kwVar => exact .skip (variableDecl_follows n).weaken
    all_goals exact statementStep_follows again onward n _

end Statements

/-! Recovery. -/

/-- Recovery ends at a position, and nothing but the position changes. -/
structure Sought (all : List Token) (c : State) (left : List Token) (ran : EStateM.Result Halt State Unit)
    (position : Nat) : Prop where
  ran : ran = .ok () { c with current := position }
  onward : c.current ≤ position
  inside : position ≤ all.length
  left : all.drop position = left

/-- Behind a token, recovery goes where the tokens from this one on lead it. -/
theorem seek_sought (n : Nat) (within : Within all line c) (behind : c.current = i + 1) (last : all[i]? = some t)
    (enough : all.length - c.current < n) :
    ∃ position, Sought all c (Parse.synchronize (t :: all.drop c.current)) (seek n c) position := by
  induction n generalizing c i t with
  | zero => omega
  | succ n ih =>
    obtain ⟨u, back, previous⟩ := previous_eq within behind
    rw [last] at back
    cases back
    unfold seek
    cases here : all[c.current]? with
    | none =>
      refine ⟨c.current, ?_, Nat.le_refl _, within.current, ?_⟩
      · rw [bind_eq (isAtEnd_eq within here)]
        rfl
      · rw [List.drop_eq_nil_of_le (List.getElem?_eq_none_iff.1 here)]
        simp [Parse.synchronize]
    | some u =>
      have rest := drop_moved here
      have started : (isAtEnd c) = .ok false c := isAtEnd_eq within here
      rw [bind_eq started, if_neg Bool.false_ne_true, bind_eq previous, rest]
      by_cases semicolon : (Entry.token t).kind? = some .semicolon
      · refine ⟨c.current, ?_, Nat.le_refl _, within.current, ?_⟩
        · rw [if_pos semicolon]
          rfl
        · rw [Parse.synchronize, if_pos (.inl (Option.some.inj semicolon)), rest]
      · rw [if_neg semicolon, bind_eq (peek_eq within here)]
        by_cases starts : (entryOf line (some u)).kind?.any Parse.startsStatement = true
        · refine ⟨c.current, ?_, Nat.le_refl _, within.current, ?_⟩
          · rw [if_pos starts]
            rfl
          · rw [Parse.synchronize, if_pos (.inr starts), rest]
        · have inside := (within.moved here).current
          obtain ⟨position, sought⟩ := ih (within.moved here) rfl here (by simp only [State.moved] at *; omega)
          refine ⟨position, ?_, Nat.le_of_succ_le sought.onward, sought.inside, ?_⟩
          · rw [if_neg starts, bind_eq (advance_eq within here)]
            exact sought.ran
          · have further : ¬ (t.kind = .semicolon ∨ Parse.startsStatement u.kind = true) := by
              rintro (same | next)
              · exact semicolon (congrArg some same)
              · exact starts next
            rw [Parse.synchronize]
            exact sought.left.trans (if_neg further).symm

/-- Recovery takes a token, unless it is at the end. -/
theorem synchronize_sought (within : Within all line c) :
    ∃ position, Sought all c (Parse.synchronize (all.drop c.current)) (synchronize c) position ∧
      (c.current < all.length → c.current < position) := by
  have size : c.entries.length = all.length + 1 := by simp [within.entries]
  cases here : all[c.current]? with
  | none =>
    have last := List.getElem?_eq_none_iff.1 here
    obtain ⟨e, stays⟩ := advance_end within here
    refine ⟨c.current, ⟨?_, Nat.le_refl _, within.current, ?_⟩, fun inside => by omega⟩
    · rw [synchronize, bind_eq stays]
      have ended : seek c.entries.length c = .ok () c := by
        rw [size, seek, bind_eq (isAtEnd_eq within here)]
        rfl
      exact ended
    · rw [List.drop_eq_nil_of_le last]
      rfl
  | some t =>
    obtain ⟨position, sought⟩ := seek_sought c.entries.length (within.moved here) rfl here (by
      simp only [State.moved]
      omega)
    refine ⟨position, ⟨?_, Nat.le_of_succ_le sought.onward, sought.inside, ?_⟩, fun _ => sought.onward⟩
    · rw [synchronize, bind_eq (advance_eq within here)]
      exact sought.ran
    · rw [drop_moved here]
      exact sought.left

private theorem Within.at (within : Within all line c) (inside : position ≤ all.length) :
    Within all line { c with current := position } :=
  ⟨within.nonempty, within.entries, inside⟩

private theorem Within.record (within : Within all line c) (start : Nat) : Within all line (c.record start) :=
  ⟨within.nonempty, within.entries, within.current⟩

/-- A call that took a token goes on record. -/
theorem Onward.record (onward : Onward all 0 c d) (within : Within all line d) (further : c.current < d.current) :
    Onward all 1 c (d.record c.current) := by
  obtain ⟨made, calls, sound⟩ := onward.calls
  refine ⟨further, made ++ [⟨c.current, d.current⟩], ?_, ?_⟩
  · simp only [State.record, calls, List.append_assoc]
  · refine List.forall_mem_append.2 ⟨sound, ?_⟩
    intro call member
    cases List.mem_singleton.1 member
    exact ⟨further, within.current⟩

/-- A call that starts at a token takes a token, in success or by recovery. -/
theorem recovering_follows {p : Parse.Parser Stmt} {q : Parser Stmt} (step : Follows all line 1 p q) (t : Token) :
    FollowsAt all line (some t) 1 (Parse.recovering p) (recovering q) := by
  intro c within here
  have inside : c.current < all.length := (within.moved here).current
  have both := step _ c within here
  unfold Parse.recovering recovering
  generalize p (c.remaining all line) = x at both
  generalize q c = y at both
  cases both with
  | ok stmt within onward =>
    have recorded := (onward.weaken (Nat.zero_le 1)).record within onward.position
    exact .ok (some stmt) (within.record c.current) recorded
  | @syntaxError d within onward =>
    obtain ⟨position, sought, takes⟩ := synchronize_sought within
    have sooner := onward.position
    have later := sought.onward
    have further : c.current < position := by
      by_cases ended : d.current < all.length
      · have := takes ended
        omega
      · omega
    have left : ({ d.remaining all line with tokens := Parse.synchronize (d.remaining all line).tokens } :
        Parse.State) = State.remaining all line { d with current := position } := by
      rw [State.remaining, State.remaining, ← sought.left]
    have moves : Onward all 0 d { d with current := position } := .of_calls later rfl
    have skipped : Onward all 0 c { d with current := position } := onward.trans moves
    have stays := within.at sought.inside
    simp only [sought.ran, left]
    exact .ok none (stays.record c.current) (skipped.record stays further)
  | exhausted => exact .exhausted

private theorem statement_declaration_follows (n : Nat) :
    Follows all line 1 (Parse.statement n) (statement n) ∧
      ∀ t, FollowsAt all line (some t) 1 (Parse.declaration n) (declaration n) := by
  induction n with
  | zero => exact ⟨.exhausted, fun t => Follows.exhausted _⟩
  | succ n ih =>
    exact ⟨statementStep_follows ih.1 ih.2 (n + 1), recovering_follows (declarationStep_follows ih.1 ih.2 (n + 1))⟩

private theorem program_follows (n : Nat) : Follows all line 0 (Parse.program n) (program n) := by
  induction n with
  | zero => exact .exhausted
  | succ n ih =>
    refine .cases ?_ fun t => ?_
    · intro c within here
      have ended : program (n + 1) c = .ok [] c := by
        rw [program, bind_eq (isAtEnd_eq within here)]
        rfl
      rw [Parse.program, parse_bind (parse_peek here), ended]
      exact .ok [] within (.refl c)
    · intro c within here
      have goes : program (n + 1) c =
          (declaration (n + 1) >>= fun s => program n >>= fun rest => Pure.pure (s.toList ++ rest)) c := by
        rw [program, bind_eq (isAtEnd_eq within here)]
        rfl
      have both := ((statement_declaration_follows (n + 1)).2 t).weaken.bind fun s => ih.bind fun rest =>
        Follows.pure (s.toList ++ rest)
      rw [Parse.program, parse_bind (parse_peek here), goes]
      exact both c within here

end Steps

/-! How the parsers end. -/

private theorem declaration_recovers (n : Nat) (s t : Parse.State) : Parse.declaration n s ≠ .error .syntaxError t := by
  cases n with
  | zero => nofun
  | succ n =>
    simp only [Parse.declaration, Parse.recovering]
    split <;> nofun

private theorem bind_eq_error {p : Parse.Parser α} {f : α → Parse.Parser β} (ran : (p >>= f) s = .error halt t) :
    p s = .error halt t ∨ ∃ a u, p s = .ok a u ∧ f a u = .error halt t := by
  simp only [Bind.bind, EStateM.bind] at ran
  split at ran
  · exact .inr ⟨_, _, by assumption, ran⟩
  · cases ran
    exact .inl (by assumption)

theorem program_recovers (n : Nat) (s t : Parse.State) : Parse.program n s ≠ .error .syntaxError t := by
  induction n generalizing s with
  | zero => nofun
  | succ n ih =>
    intro ran
    rcases bind_eq_error ran with gave | ⟨next, u, -, ran⟩
    · cases gave
    cases next with
    | none => cases ran
    | some token =>
      rcases bind_eq_error ran with gave | ⟨found, v, -, ran⟩
      · exact declaration_recovers (n + 1) u t gave
      rcases bind_eq_error ran with gave | ⟨stmts, w, -, ran⟩
      · exact ih v gave
      · cases ran

/-- A parser that neither uses up its bound nor gives up returns, and the other one returns the same. -/
theorem returns {p : Parse.Parser α} {q : Parser α} {Q : α → Parse.State → Prop}
    (runs : Parse.Runs p (c.remaining all line) Q) (recovers : ∀ t, p (c.remaining all line) ≠ .error .syntaxError t)
    (both : Matched all line k c (p (c.remaining all line)) (q c)) :
    ∃ a d, p (c.remaining all line) = .ok a (d.remaining all line) ∧ q c = .ok a d ∧ Within all line d ∧
      Onward all k c d ∧ Q a (d.remaining all line) := by
  unfold Parse.Runs at runs
  generalize p (c.remaining all line) = x at *
  generalize q c = y at *
  cases both with
  | ok a within onward => exact ⟨a, _, rfl, rfl, within, onward, runs.2⟩
  | syntaxError within onward => exact absurd rfl (recovers _)
  | exhausted => exact runs.elim

/-- A call that reads a declaration, from any position where a token comes next: it ends, in success or by
recovery, further on in the table. -/
theorem declaration_onward (within : Within all line c) (inside : c.current < all.length)
    (enough : all.length - c.current < n) :
    ∃ found d, declaration n c = .ok found d ∧ c.current < d.current ∧ d.current ≤ all.length := by
  have size : (c.remaining all line).tokens.length = all.length - c.current := List.length_drop
  have nonempty : (c.remaining all line).tokens ≠ [] := by
    intro none
    rw [none, List.length_nil] at size
    omega
  have runs := (Parse.statement_declaration_runs n).2 (c.remaining all line) nonempty (by omega)
  have both := (statement_declaration_follows n).2 _ c within (List.getElem?_eq_getElem inside)
  obtain ⟨found, d, -, ran, within, onward, -⟩ := returns runs (declaration_recovers n _) both
  exact ⟨found, d, ran, onward.position, within.current⟩

/-- The parser of the whole program, where there are tokens. -/
theorem parse_returns (lastId : NodeId) (scan : Scan) (nonempty : scan.tokens ≠ []) :
    ∃ c, Cursor.parse lastId scan = .ok (Lox.parse lastId scan).statements c ∧
      c.errors = (Lox.parse lastId scan).errors ∧ c.lastId = (Lox.parse lastId scan).lastId ∧
      Within scan.tokens scan.endLine c ∧ c.current = scan.tokens.length ∧
      Onward scan.tokens 0 ⟨scan.entries, 0, lastId, [], []⟩ c := by
  have within : Within scan.tokens scan.endLine ⟨scan.entries, 0, lastId, [], []⟩ := ⟨nonempty, rfl, Nat.zero_le _⟩
  have runs := Parse.program_runs (s := State.remaining scan.tokens scan.endLine ⟨scan.entries, 0, lastId, [], []⟩)
    (scan.tokens.length + 1) (Nat.lt_succ_self _)
  have both := program_follows (scan.tokens.length + 1) _ _ within rfl
  obtain ⟨statements, d, read, ran, within, onward, ended, -⟩ := returns runs (program_recovers _ _) both
  have parsed : Lox.parse lastId scan = ⟨statements, d.errors, d.lastId⟩ := by
    unfold Lox.parse
    exact read ▸ rfl
  rw [parsed]
  exact ⟨d, ran, rfl, rfl, within, Nat.le_antisymm within.current (List.drop_eq_nil_iff.1 ended), onward⟩

/-- Parsing ends at the end of the program and stays within the table of tokens, whatever tokens there are. It
returns what is read from the list of tokens, to look outside of the table not being an outcome. Every call that
reads a declaration takes a token, and so would any such call from anywhere but the end. -/
theorem parsing_stays_in_bounds (lastId : NodeId) (scan : Scan) :
    (∃ c, Cursor.parse lastId scan = .ok (Lox.parse lastId scan).statements c ∧
      c.errors = (Lox.parse lastId scan).errors ∧ c.lastId = (Lox.parse lastId scan).lastId ∧
      c.entries = scan.entries ∧ c.current = scan.tokens.length ∧
      c.entries[c.current]? = some (.eof scan.endLine) ∧
      ∀ call ∈ c.calls, call.start < call.finish ∧ call.finish ≤ scan.tokens.length) ∧
    ∀ (c : State) (n : Nat), c.entries = scan.entries → c.current < scan.tokens.length →
      scan.tokens.length - c.current < n →
      ∃ found d, declaration n c = .ok found d ∧ c.current < d.current ∧ d.current ≤ scan.tokens.length := by
  constructor
  · by_cases none : scan.tokens = []
    · obtain ⟨tokens, errors, endLine⟩ := scan
      cases none
      exact ⟨⟨[.eof endLine], 0, lastId, [], []⟩, rfl, rfl, rfl, rfl, rfl, rfl, nofun⟩
    · obtain ⟨c, ran, errors, ids, within, last, onward⟩ := parse_returns lastId scan none
      obtain ⟨made, calls, sound⟩ := onward.calls
      refine ⟨c, ran, errors, ids, within.entries, last, ?_, ?_⟩
      · rw [within.entry, last, List.getElem?_eq_none (Nat.le_refl _)]
        rfl
      · rw [calls]
        exact sound
  · intro c n entries inside enough
    have nonempty : scan.tokens ≠ [] := List.ne_nil_of_length_pos (by omega)
    exact declaration_onward ⟨nonempty, entries, Nat.le_of_lt inside⟩ inside enough

/-- Recovery inside a block does not leave it, and at the end of the tokens there is nothing more to take. -/
example :
    (match Cursor.parse 0 (scan (Text.ofString "\x7b var; x = ; print nil")) with
      | .ok _ c => some (c.current, c.errors.length, c.calls)
      | .error _ _ => none) = some (8, 4, [⟨1, 3⟩, ⟨3, 6⟩, ⟨6, 8⟩, ⟨0, 8⟩]) := by
  decide +kernel

end Lox.Cursor
