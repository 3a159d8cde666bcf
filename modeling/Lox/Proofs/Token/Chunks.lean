import Mathlib.Data.List.Forall2
import Lox.Proofs.Table
import Lox.Token.Scan

/-! Where chunks end. Reading a chunk looks past its end at two bytes at most, and then only at what
they are like: a chunk stays as it is when the text after it is replaced by one that goes on likewise. -/
namespace Lox

/-- A word that is no keyword. -/
def Text.isIdentifier : Text → Bool
  | [] => false
  | first :: rest =>
    isLetter first && rest.all isWordByte && TokenKind.ofWord (first :: rest) == .identifier

namespace Chunk

theorem run_append {p : UInt8 → Bool} {body rest : Text} (inside : ∀ b ∈ body, p b = true)
    (stop : ∀ b, rest.head? = some b → p b = false) : run p (body ++ rest) = (body, rest) := by
  rw [run, List.takeWhile_append_of_pos inside, List.dropWhile_append_of_pos inside]
  cases rest with
  | nil => simp
  | cons b rest => simp [stop b rfl]

/-- What a run of bytes is, and where it ends. -/
theorem run_spec (p : UInt8 → Bool) (t : Text) : ∃ body rest, run p t = (body, rest) ∧ t = body ++ rest ∧
    (∀ b ∈ body, p b = true) ∧ ∀ b, rest.head? = some b → p b = false := by
  induction t with
  | nil => exact ⟨[], [], rfl, rfl, nofun, nofun⟩
  | cons b t ih =>
    cases passes : p b with
    | true =>
      obtain ⟨body, rest, cut, rfl, inside, stop⟩ := ih
      refine ⟨b :: body, rest, ?_, rfl, List.forall_mem_cons.2 ⟨passes, inside⟩, stop⟩
      exact run_append (List.forall_mem_cons.2 ⟨passes, inside⟩) stop
    | false =>
      refine ⟨[], b :: t, by simp [run, passes], rfl, nofun, ?_⟩
      rintro _ ⟨⟩
      exact passes

/-- A text goes on likewise: with the same byte, with some other letter, or with the end of the line
where there was nothing more. -/
inductive Follows : Option UInt8 → Option UInt8 → Prop where
  | same : Follows b b
  | letters (left : Text.isLetter a = true) (right : Text.isLetter b = true) : Follows (some a) (some b)
  | ending : Follows none (some Text.newline)

/-- Two texts that a chunk before them cannot tell apart. A point matters together with what comes
after it. -/
structure Continues (after after' : Text) : Prop where
  first : Follows after.head? after'.head?
  second : after.head? = some Number.point → Follows after.tail.head? after'.tail.head?

/-- A byte that is not a letter and not the end of a line is there on both sides or on neither. -/
theorem Follows.eq_some (follows : Follows peek (some b)) (letter : Text.isLetter b = false)
    (line : b ≠ Text.newline) : peek = some b := by
  cases follows with
  | same => rfl
  | letters _ right =>
    rw [letter] at right
    cases right
  | ending => exact absurd rfl line

theorem isDigit_of_isLetter {b : UInt8} (letter : Text.isLetter b = true) : Text.isDigit b = false := by
  simp only [Text.isLetter, Text.isDigit, UInt8.le_iff_toNat_le, Bool.or_eq_true, Bool.and_eq_true,
    Bool.and_eq_false_iff, decide_eq_true_eq, decide_eq_false_iff_not, beq_iff_eq, ← UInt8.toNat_inj,
    show 'a'.toUInt8.toNat = 97 from rfl, show 'z'.toUInt8.toNat = 122 from rfl,
    show 'A'.toUInt8.toNat = 65 from rfl, show 'Z'.toUInt8.toNat = 90 from rfl,
    show '_'.toUInt8.toNat = 95 from rfl, show '0'.toUInt8.toNat = 48 from rfl,
    show '9'.toUInt8.toNat = 57 from rfl] at *
  omega

/-- No digit comes where there was none before. -/
theorem Follows.noDigit (follows : Follows peek peek') (stop : ∀ b, peek = some b → Text.isDigit b = false) :
    ∀ b, peek' = some b → Text.isDigit b = false := by
  cases follows with
  | same => exact stop
  | letters _ right =>
    rintro _ ⟨⟩
    exact isDigit_of_isLetter right
  | ending =>
    rintro _ ⟨⟩
    decide

/-- A word that has ended stays ended. -/
theorem Follows.noWordByte (follows : Follows peek peek')
    (stop : ∀ b, peek = some b → Text.isWordByte b = false) :
    ∀ b, peek' = some b → Text.isWordByte b = false := by
  cases follows with
  | same => exact stop
  | letters left _ =>
    have more := stop _ rfl
    rw [Text.isWordByte, left] at more
    cases more
  | ending =>
    rintro _ ⟨⟩
    decide

/-- So does a comment. -/
theorem Follows.lineEnd (follows : Follows peek peek')
    (stop : ∀ b, peek = some b → (b != Text.newline) = false) :
    ∀ b, peek' = some b → (b != Text.newline) = false := by
  cases follows with
  | same => exact stop
  | @letters a _ left _ =>
    have ends := stop _ rfl
    rw [bne_eq_false_iff_eq] at ends
    subst ends
    exact absurd left (by decide)
  | ending =>
    rintro _ ⟨⟩
    decide

/-- What is read at the start of a text does not depend on how the text goes on. -/
def Stable (read : Text → Chunk × Text) (first : UInt8) (rest : Text) : Prop :=
  ∃ body, rest = body ++ (read rest).2 ∧ (read rest).1.text = first :: body ∧
    ∀ after', Continues (read rest).2 after' → read (body ++ after') = ((read rest).1, after')

private theorem comment_stable (first : UInt8) (rest : Text) : Stable (comment first) first rest := by
  obtain ⟨body, after, cut, split, inside, stop⟩ := run_spec (· != Text.newline) rest
  simp only [Stable, comment, cut]
  refine ⟨body, split, rfl, fun after' continues => ?_⟩
  simp only [run_append inside (continues.first.lineEnd stop)]

private theorem word_stable (first : UInt8) (rest : Text) : Stable (word first) first rest := by
  obtain ⟨body, after, cut, split, inside, stop⟩ := run_spec Text.isWordByte rest
  simp only [Stable, word, cut]
  refine ⟨body, split, rfl, fun after' continues => ?_⟩
  simp only [run_append inside (continues.first.noWordByte stop)]

private theorem string_stable (first : UInt8) (rest : Text) (closed : (string first rest).1.kind ≠ .unclosedString) :
    Stable (string first) first rest := by
  obtain ⟨body, after, cut, split, inside, stop⟩ := run_spec (· != quote) rest
  cases after with
  | nil => simp [string, cut] at closed
  | cons close after =>
    simp only [Stable, string, cut]
    refine ⟨body ++ [close], by simp [split], by simp, fun after' _ => ?_⟩
    have again : run (· != quote) (body ++ close :: after') = (body, close :: after') :=
      run_append inside fun b first => stop b first
    rw [List.append_assoc, List.singleton_append, again]

private theorem operator_stable (kind : TokenKind) (first : UInt8) (rest : Text) :
    Stable (operator kind first) first rest := by
  cases longer : kind.withEqual? with
  | none =>
    simp only [Stable, operator, longer]
    exact ⟨[], rfl, rfl, fun _ _ => rfl⟩
  | some both =>
    have alone : ∀ after, (∀ b, after.head? = some b → b ≠ '='.toUInt8) →
        operator kind first after = (⟨.lexeme kind, [first]⟩, after) := by
      intro after other
      cases after with
      | nil => simp [operator, longer]
      | cons b after => simp [operator, longer, other b rfl]
    by_cases completed : rest.head? = some '='.toUInt8
    · obtain ⟨after, rfl⟩ := List.head?_eq_some_iff.1 completed
      simp only [Stable, operator, longer]
      exact ⟨['='.toUInt8], rfl, rfl, fun _ _ => rfl⟩
    · have other : ∀ b, rest.head? = some b → b ≠ '='.toUInt8 := by
        rintro b peek rfl
        exact completed peek
      simp only [Stable, alone rest other]
      refine ⟨[], rfl, rfl, fun after' continues => alone after' ?_⟩
      rintro b peek rfl
      have first := continues.first
      rw [peek] at first
      exact completed (first.eq_some (by decide) (by decide))

theorem fraction_eq_nil (whole : ¬∃ d more, t = Number.point :: d :: more ∧ Text.isDigit d = true) :
    fraction t = ([], t) := by
  unfold fraction
  split
  · rename_i mark d more
    rw [if_neg]
    rintro ⟨rfl, digit⟩
    exact whole ⟨d, more, rfl, digit⟩
  · rfl

/-- The fraction of a number, and what a digit before it sees. -/
theorem fraction_stable (t : Text) : ∃ part after, fraction t = (part, after) ∧ t = part ++ after ∧
    ∀ after', Continues after after' →
      fraction (part ++ after') = (part, after') ∧ Follows t.head? (part ++ after').head? := by
  by_cases pointed : ∃ d rest, t = Number.point :: d :: rest ∧ Text.isDigit d = true
  · obtain ⟨d, rest, rfl, digit⟩ := pointed
    obtain ⟨digits, after, cut, split, inside, stop⟩ := run_spec Text.isDigit rest
    refine ⟨Number.point :: d :: digits, after, by simp [fraction, digit, cut], by simp [split], ?_⟩
    intro after' continues
    have again := run_append inside (continues.first.noDigit stop)
    exact ⟨by simp [fraction, digit, again], .same⟩
  · refine ⟨[], t, fraction_eq_nil pointed, rfl, fun after' continues => ⟨fraction_eq_nil ?_, continues.first⟩⟩
    rintro ⟨d, rest, rfl, digit⟩
    have point : t.head? = some Number.point := continues.first.eq_some (by decide) (by decide)
    have stays : Text.isDigit d = false := by
      refine (continues.second point).noDigit (fun b peek => ?_) d rfl
      cases digit' : Text.isDigit b with
      | false => rfl
      | true =>
        obtain ⟨rest', rfl⟩ : ∃ rest', t = Number.point :: b :: rest' := by
          match t, point, peek with
          | _ :: _ :: rest', rfl, rfl => exact ⟨rest', rfl⟩
        exact absurd ⟨b, rest', rfl, digit'⟩ pointed
    rw [stays] at digit
    cases digit

private theorem number_stable (first : UInt8) (rest : Text) : Stable (number first) first rest := by
  obtain ⟨whole, afterWhole, cut, split, inside, stop⟩ := run_spec Text.isDigit rest
  obtain ⟨part, after, fractional, parted, same⟩ := fraction_stable afterWhole
  simp only [Stable, number, cut, fractional]
  refine ⟨whole ++ part, by simp [split, parted], by simp, fun after' continues => ?_⟩
  obtain ⟨again, follows⟩ := same after' continues
  have digits : run Text.isDigit (whole ++ (part ++ after')) = (whole, part ++ after') :=
    run_append inside (follows.noDigit stop)
  simp only [List.append_assoc, digits, again]

/-- A slash that does not start a comment still does not. -/
private theorem slash_stable (first : UInt8) (rest : Text) (blank : isBlank first = false)
    (letter : Text.isLetter first = false) (slash : TokenKind.ofByte? first = some .slash) :
    Stable (fun rest => if rest.head? = some first then comment first rest else
      operator .slash first rest) first rest := by
  have line : first ≠ Text.newline := by
    rintro rfl
    exact absurd blank (by decide)
  by_cases twice : rest.head? = some first
  · obtain ⟨body, split, text, same⟩ := comment_stable first rest
    have starts : ∀ after', (body ++ after').head? = some first := by
      obtain ⟨more, rfl⟩ := List.head?_eq_some_iff.1 twice
      simp only [comment, run, List.takeWhile_cons, bne_iff_ne.2 line, if_true, List.cons.injEq, true_and]
        at text
      intro after'
      rw [← text]
      rfl
    unfold Stable
    simp only [if_pos twice]
    refine ⟨body, split, text, fun after' continues => ?_⟩
    rw [if_pos (starts after')]
    exact same after' continues
  · have alone : ∀ after, operator .slash first after = (⟨.lexeme .slash, [first]⟩, after) := by
      intro after
      simp [operator, TokenKind.withEqual?]
    unfold Stable
    simp only [if_neg twice, alone]
    refine ⟨[], rfl, rfl, fun after' continues => ?_⟩
    rw [if_neg]
    · rfl
    · intro peek
      have goes := continues.first
      rw [List.nil_append] at peek
      rw [peek] at goes
      exact twice (goes.eq_some letter line)

/-- Reading a chunk that is closed does not depend on how the text after it goes on. -/
theorem next_stable (first : UInt8) (rest : Text) (closed : (next first rest).1.kind ≠ .unclosedString) :
    Stable (next first) first rest := by
  cases blank : isBlank first with
  | true =>
    have reads : next first = fun rest => (⟨.blank, [first]⟩, rest) := by
      funext rest
      simp [next, blank]
    rw [reads]
    exact ⟨[], rfl, rfl, fun _ _ => rfl⟩
  | false =>
  by_cases quoted : first = quote
  · have reads : next first = string first := by
      funext rest
      rw [next, blank, if_neg Bool.false_ne_true, if_pos quoted]
    rw [reads] at closed ⊢
    exact string_stable first rest closed
  cases digit : Text.isDigit first with
  | true =>
    have reads : next first = number first := by
      funext rest
      simp [next, blank, quoted, digit]
    rw [reads]
    exact number_stable first rest
  | false =>
  cases letter : Text.isLetter first with
  | true =>
    have reads : next first = word first := by
      funext rest
      simp [next, blank, quoted, digit, letter]
    rw [reads]
    exact word_stable first rest
  | false =>
  cases mark : TokenKind.ofByte? first with
  | none =>
    have reads : next first = fun rest => (⟨.stray, [first]⟩, rest) := by
      funext rest
      simp [next, blank, quoted, digit, letter, mark]
    rw [reads]
    exact ⟨[], rfl, rfl, fun _ _ => rfl⟩
  | some kind =>
    by_cases slash : kind = .slash
    · subst slash
      have reads : next first = fun rest =>
          if rest.head? = some first then comment first rest else operator .slash first rest := by
        funext rest
        simp [next, blank, quoted, digit, letter, mark]
      rw [reads]
      exact slash_stable first rest blank letter mark
    · have reads : next first = operator kind first := by
        funext rest
        simp [next, blank, quoted, digit, letter, mark, slash]
      rw [reads]
      exact operator_stable kind first rest

/-! Chunks one after the other. -/

theorem all_cons (first : UInt8) (rest : Text) :
    all (first :: rest) = (next first rest).1 :: all (next first rest).2 := by
  rw [all]

/-- No string is left open. -/
def Closed (cs : List Chunk) : Prop := ∀ c ∈ cs, c.kind ≠ .unclosedString

private theorem closed_cons (closed : Closed (all (first :: rest))) :
    (next first rest).1.kind ≠ .unclosedString ∧ Closed (all (next first rest).2) := by
  rw [all_cons] at closed
  exact List.forall_mem_cons.1 closed

/-- Every byte is in a chunk. -/
theorem texts_all (t : Text) (closed : Closed (all t)) : (all t).flatMap Chunk.text = t := by
  induction t using all.induct with
  | case1 => simp [all]
  | case2 first rest ih =>
    obtain ⟨here, later⟩ := closed_cons closed
    obtain ⟨body, split, text, -⟩ := next_stable first rest here
    rw [all_cons, List.flatMap_cons, ih later, text, List.cons_append, ← split]

/-- A line end after a text is a chunk of its own. -/
theorem all_append_newline (t more : Text) (closed : Closed (all t)) :
    all (t ++ Text.newline :: more) = all t ++ ⟨.blank, [Text.newline]⟩ :: all more := by
  have head : ∀ t : Text, Follows t.head? (t ++ Text.newline :: more).head? := by
    intro t
    cases t with
    | nil => exact .ending
    | cons b t => exact .same
  induction t using all.induct with
  | case1 =>
    rw [List.nil_append, all_cons, all]
    rfl
  | case2 first rest ih =>
    obtain ⟨here, later⟩ := closed_cons closed
    obtain ⟨body, split, -, same⟩ := next_stable first rest here
    have goes : Continues (next first rest).2 ((next first rest).2 ++ Text.newline :: more) := by
      refine ⟨head _, fun point => ?_⟩
      obtain ⟨after, cut⟩ := List.head?_eq_some_iff.1 point
      rw [cut]
      exact head after
    have again := same _ goes
    rw [← List.append_assoc, ← split] at again
    rw [List.cons_append, all_cons, again, ih later, all_cons, List.cons_append]

/-! Identifiers. -/

theorem next_of_isLetter (letter : Text.isLetter first = true) (rest : Text) :
    next first rest = word first rest := by
  have blank : isBlank first = false := by
    cases blank : isBlank first with
    | false => rfl
    | true =>
      simp only [isBlank, Bool.or_eq_true, beq_iff_eq] at blank
      obtain ((rfl | rfl) | rfl) | rfl := blank <;> exact absurd letter (by decide)
  have open' : first ≠ quote := by
    rintro rfl
    exact absurd letter (by decide)
  simp [next, blank, open', isDigit_of_isLetter letter, letter]

private theorem ofByte?_ne_identifier (b : UInt8) : TokenKind.ofByte? b ≠ some .identifier := by
  unfold TokenKind.ofByte?
  split <;> nofun

private theorem withEqual?_ne_identifier (kind : TokenKind) : kind.withEqual? ≠ some .identifier := by
  cases kind <;> nofun

private theorem operator_ne_identifier (kind : TokenKind) (first : UInt8) (rest : Text)
    (other : kind ≠ .identifier) : (operator kind first rest).1.kind ≠ .lexeme .identifier := by
  unfold operator
  split
  · rename_i longer
    split
    · rintro ⟨⟩
      exact withEqual?_ne_identifier kind longer
    · rintro ⟨⟩
      exact other rfl
  · rintro ⟨⟩
    exact other rfl

/-- An identifier starts with a letter. -/
theorem letter_of_identifier (named : (next first rest).1.kind = .lexeme .identifier) :
    Text.isLetter first = true := by
  unfold next at named
  split at named
  · cases named
  split at named
  · unfold string at named
    split at named <;> cases named
  split at named
  · cases named
  split at named
  · assumption
  split at named
  · cases named
  · rename_i kind mark
    have other : kind ≠ .identifier := by
      rintro rfl
      exact ofByte?_ne_identifier first mark
    split at named
    · cases named
    · exact absurd named (operator_ne_identifier kind first rest other)

/-- An identifier goes on as far as it can. -/
theorem next_identifier (named : (next first rest).1.kind = .lexeme .identifier) :
    Text.isIdentifier (next first rest).1.text = true ∧
      ∀ b, (next first rest).2.head? = some b → Text.isWordByte b = false := by
  have letter := letter_of_identifier named
  obtain ⟨body, after, cut, -, inside, stop⟩ := run_spec Text.isWordByte rest
  rw [next_of_isLetter letter, word, cut] at named ⊢
  refine ⟨?_, stop⟩
  simp only [Text.isIdentifier, letter, List.all_eq_true.2 inside, Bool.true_and, beq_iff_eq]
  exact ChunkKind.lexeme.inj named

theorem identifiers_all (t : Text) : ∀ c ∈ all t, c.kind = .lexeme .identifier → Text.isIdentifier c.text = true := by
  induction t using all.induct with
  | case1 => simp [all]
  | case2 first rest ih =>
    rw [all_cons]
    exact List.forall_mem_cons.2 ⟨fun named => (next_identifier named).1, ih⟩

/-- Reading an identifier that nothing continues. -/
theorem all_identifier (name : Text.isIdentifier t = true)
    (stop : ∀ b, List.head? after = some b → Text.isWordByte b = false) :
    all (t ++ after) = ⟨.lexeme .identifier, t⟩ :: all after := by
  cases t with
  | nil => cases name
  | cons first rest =>
    simp only [Text.isIdentifier, Bool.and_eq_true, List.all_eq_true, beq_iff_eq] at name
    obtain ⟨⟨letter, inside⟩, plain⟩ := name
    rw [List.cons_append, all_cons, next_of_isLetter letter, word, run_append inside stop]
    simp only [plain]

/-- A chunk, or one identifier in the place of another. -/
inductive Replaces (old new : Text) : Chunk → Chunk → Prop where
  | same : Replaces old new c c
  | identifier : Replaces old new ⟨.lexeme .identifier, old⟩ ⟨.lexeme .identifier, new⟩

private theorem starts_with_letter (name : Text.isIdentifier t = true) :
    ∃ first rest, t = first :: rest ∧ Text.isLetter first = true := by
  cases t with
  | nil => cases name
  | cons first rest =>
    simp only [Text.isIdentifier, Bool.and_eq_true] at name
    exact ⟨first, rest, rfl, name.1.1⟩

private theorem follows_replaced (name : Text.isIdentifier new = true) (closed : Closed (all t))
    (replaced : List.Forall₂ (Replaces old new) (all t) cs) : Follows t.head? (cs.flatMap Chunk.text).head? := by
  cases t with
  | nil =>
    rw [all] at replaced
    cases replaced
    exact .same
  | cons first rest =>
    obtain ⟨here, -⟩ := closed_cons closed
    obtain ⟨body, -, text, -⟩ := next_stable first rest here
    have left := @letter_of_identifier first rest
    rw [all_cons] at replaced
    generalize (next first rest).1 = chunk at text left replaced
    cases replaced with
    | cons head =>
      rw [List.flatMap_cons]
      cases head with
      | same =>
        rw [text]
        exact .same
      | identifier =>
        obtain ⟨_, _, rfl, right⟩ := starts_with_letter name
        exact .letters (left rfl) right

/-- The dot operator is read alone. -/
theorem next_point (rest : Text) : next Number.point rest = (⟨.lexeme .dot, [Number.point]⟩, rest) := by
  rfl

private theorem continues_replaced (name : Text.isIdentifier new = true) (closed : Closed (all t))
    (replaced : List.Forall₂ (Replaces old new) (all t) cs) : Continues t (cs.flatMap Chunk.text) := by
  refine ⟨follows_replaced name closed replaced, fun point => ?_⟩
  obtain ⟨rest, rfl⟩ := List.head?_eq_some_iff.1 point
  obtain ⟨-, later⟩ := closed_cons closed
  rw [all_cons, next_point] at replaced
  rw [next_point] at later
  cases replaced with
  | cons head tail =>
    cases head
    exact follows_replaced name later tail

/-- Chunks with other identifiers are again the chunks of a text. -/
theorem all_replaced (name : Text.isIdentifier new = true) (closed : Closed (all t))
    (replaced : List.Forall₂ (Replaces old new) (all t) cs) : all (cs.flatMap Chunk.text) = cs := by
  induction t using all.induct generalizing cs with
  | case1 =>
    rw [all] at replaced
    cases replaced
    rw [List.flatMap_nil, all]
  | case2 first rest ih =>
    obtain ⟨here, later⟩ := closed_cons closed
    obtain ⟨body, -, text, same⟩ := next_stable first rest here
    have ended := @next_identifier first rest
    rw [all_cons] at replaced
    generalize chunk : (next first rest).1 = c at text replaced ended same
    cases replaced with
    | @cons _ c' _ cs head tail =>
      have goes := continues_replaced name later tail
      rw [List.flatMap_cons]
      cases head with
      | same => rw [text, List.cons_append, all_cons, same _ goes, ih later tail]
      | identifier =>
        rw [all_identifier name (goes.first.noWordByte (ended rfl).2), ih later tail]

end Chunk
end Lox
