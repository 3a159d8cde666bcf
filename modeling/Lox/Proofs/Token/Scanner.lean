import Lox.Proofs.Token.LongestMatch

/-! Scanning with a position. The scanner has the text as a table of bytes. It looks at the byte at its position
and at the one after it, zero standing for the end, and counts lines as it goes: at a line end between tokens, and at
one inside a string. To take a byte from beyond the end, or a part that is not in the text, stops everything. It never
happens: from every text the scanner returns, at its end, with the tokens, errors and lines of the chunks. -/
namespace Lox

namespace Scanner

/-- Where a scanner stands: the start of the chunk that it reads and its position in the text, the line, and what it
has found. A token is made together with its literal. -/
structure State where
  source : Text
  start : Nat
  current : Nat
  line : Nat
  tokens : List (Token × Option Literal)
  errors : List StaticError

/-- Why a scanner gives up: a position that is not in the text, or a bound that is used up. -/
inductive Halt
  | outside (position : Nat)
  | exhausted
  deriving DecidableEq

abbrev Scanning := EStateM Halt State

def byteAt (position : Nat) : Scanning UInt8 := fun s =>
  match s.source[position]? with
  | some b => .ok b s
  | none => .error (.outside position) s

/-- The part of the text from one position up to another. -/
def slice (first last : Nat) : Scanning Text := fun s =>
  if first ≤ last ∧ last ≤ s.source.length then .ok ((s.source.take last).drop first) s
  else .error (.outside last) s

def isAtEnd : Scanning Bool := fun s => .ok (decide (s.source.length ≤ s.current)) s

/-- Takes the next byte, which has to be there. -/
def advance : Scanning UInt8 := do
  let b ← byteAt (← get).current
  modify fun s => { s with current := s.current + 1 }
  pure b

/-- Takes the next byte if it is the given one. -/
def accept (wanted : UInt8) : Scanning Bool := do
  if ← isAtEnd then pure false
  else if (← byteAt (← get).current) ≠ wanted then pure false
  else
    modify fun s => { s with current := s.current + 1 }
    pure true

/-- The next byte, or zero at the end. -/
def peek : Scanning UInt8 := do
  if ← isAtEnd then pure 0 else byteAt (← get).current

/-- The byte after the next one, or zero. -/
def peekNext : Scanning UInt8 := do
  let s ← get
  if s.source.length ≤ s.current + 1 then pure 0 else byteAt (s.current + 1)

def nextLine : Scanning Unit := modify fun s => { s with line := s.line + 1 }

def emit (kind : TokenKind) (literal : Option Literal) : Scanning Unit := do
  let s ← get
  let lexeme ← slice s.start s.current
  let token : Token := ⟨kind, lexeme, s.line⟩
  set { s with tokens := s.tokens ++ [(token, literal)] }

def report (cause : StaticCause) : Scanning Unit :=
  modify fun s => { s with errors := s.errors ++ [⟨cause, s.line, .nowhere⟩] }

def loop (test : Scanning Bool) (body : Scanning Unit) : Nat → Scanning Unit
  | 0 => throw .exhausted
  | n + 1 => do
    if ← test then
      body
      loop test body n

def pass : Scanning Unit := do
  let _ ← advance

def skipWhile (p : UInt8 → Bool) (bound : Nat) : Scanning Unit := loop (return p (← peek)) pass bound

/-- Whether there is something before the next of these bytes, or before the end. -/
def isBefore (stop : UInt8) : Scanning Bool := do
  return (← peek) != stop && !(← isAtEnd)

def string (bound : Nat) : Scanning Unit := do
  loop (isBefore Chunk.quote)
    (do
      if (← peek) = Text.newline then nextLine
      pass) bound
  if ← isAtEnd then report .unterminatedString
  else
    pass
    let s ← get
    let body ← slice (s.start + 1) (s.current - 1)
    emit .string (some (.string body))

def number (bound : Nat) : Scanning Unit := do
  skipWhile Text.isDigit bound
  if (← peek) = Number.point ∧ Text.isDigit (← peekNext) then
    pass
    skipWhile Text.isDigit bound
  let s ← get
  let lexeme ← slice s.start s.current
  emit .number (some (.number (Number.ofLexeme lexeme)))

def word (bound : Nat) : Scanning Unit := do
  skipWhile Text.isWordByte bound
  let s ← get
  let lexeme ← slice s.start s.current
  emit (TokenKind.ofWord lexeme) none

/-- An operator or a mark. Two slashes start a comment. -/
def mark (kind : TokenKind) (bound : Nat) : Scanning Unit := do
  if kind = .slash then
    if ← accept Chunk.slash then loop (isBefore Text.newline) pass bound else emit kind none
  else
    match kind.withEqual? with
    | some longer => if ← accept '='.toUInt8 then emit longer none else emit kind none
    | none => emit kind none

/-- What starts with any other byte. -/
def unmarked (first : UInt8) (bound : Nat) : Scanning Unit :=
  if first = ' '.toUInt8 ∨ first = '\r'.toUInt8 ∨ first = '\t'.toUInt8 then pure ()
  else if first = Text.newline then nextLine
  else if first = Chunk.quote then string bound
  else if Text.isDigit first then number bound
  else if Text.isLetter first then word bound
  else report .unexpectedCharacter

def scanToken (bound : Nat) : Scanning Unit := do
  let first ← advance
  match TokenKind.ofByte? first with
  | some kind => mark kind bound
  | none => unmarked first bound

/-- Reads all tokens and returns the line of the end. -/
def scanAll (bound : Nat) : Scanning Nat := do
  loop (return !(← isAtEnd))
    (do
      modify fun s => { s with start := s.current }
      scanToken bound) bound
  return (← get).line

/-- No loop goes round more often than there are bytes. -/
def scan (source : Text) : EStateM.Result Halt State Nat :=
  scanAll (source.length + 1) ⟨source, 0, 0, 1, [], []⟩

/-! What is left of the text, and how the readers take from it. -/

namespace State

/-- The text from the position on. -/
def left (s : State) : Text := s.source.drop s.current

/-- The state once some bytes have been passed, and the line ends among them counted. -/
def past (s : State) (t : Text) : State :=
  { s with current := s.current + t.length, line := s.line + Text.newlines t }

private theorem past_past (s : State) (t u : Text) : (s.past t).past u = s.past (t ++ u) := by
  simp [past, Text.newlines, Nat.add_assoc]

private theorem left_past {s : State} (left : s.left = t ++ rest) : (s.past t).left = rest := by
  have dropped : (s.past t).left = s.left.drop t.length := by simp [State.left, past, List.drop_drop]
  rw [dropped, left, List.drop_left]

end State

private theorem run_bind {x : Scanning α} {f : α → Scanning β} (ran : x s = .ok a t) : (x >>= f) s = f a t := by
  simp only [Bind.bind, EStateM.bind, ran]

private theorem byteAt_left {s : State} (i : Nat) (left : s.left[i]? = some b) :
    byteAt (s.current + i) s = .ok b s := by
  have found : s.source[s.current + i]? = some b := by rwa [State.left, List.getElem?_drop] at left
  simp only [byteAt, found]

private theorem isAtEnd_eq (s : State) : isAtEnd s = .ok s.left.isEmpty s := by
  have same : decide (s.source.length ≤ s.current) = s.left.isEmpty := by
    rw [Bool.eq_iff_iff]
    simp [State.left]
  rw [isAtEnd, same]

/-- The next byte can be taken; a line end is not counted by that. -/
private theorem advance_eq {s : State} (left : s.left = b :: rest) :
    advance s = .ok b { s with current := s.current + 1 } := by
  have byte : byteAt s.current s = .ok b s := byteAt_left 0 (by rw [left]; rfl)
  exact run_bind byte

private theorem passed {s : State} (line : b ≠ Text.newline) : { s with current := s.current + 1 } = s.past [b] := by
  have lines : Text.newlines [b] = 0 := List.count_eq_zero.2 (by simpa using Ne.symm line)
  simp [State.past, lines]

private theorem pass_eq {s : State} (left : s.left = b :: rest) (line : b ≠ Text.newline) :
    pass s = .ok () (s.past [b]) := by
  rw [← passed line]
  exact run_bind (advance_eq left)

private theorem peek_eq (s : State) : peek s = .ok (s.left.headD 0) s := by
  refine (run_bind (isAtEnd_eq s)).trans ?_
  cases left : s.left with
  | nil => rfl
  | cons b rest =>
    have byte : byteAt s.current s = .ok b s := byteAt_left 0 (by rw [left]; rfl)
    exact byte

private theorem peekNext_eq (s : State) : peekNext s = .ok (s.left.tail.headD 0) s := by
  have size : s.left.length = s.source.length - s.current := List.length_drop
  show (if s.source.length ≤ s.current + 1 then pure 0 else byteAt (s.current + 1) : Scanning UInt8) s = _
  match left : s.left with
  | [] | [_] =>
    rw [left] at size
    rw [if_pos (by simp at size; omega)]
    rfl
  | a :: b :: rest =>
    rw [left] at size
    rw [if_neg (by simp at size; omega), byteAt_left 1 (by rw [left]; rfl)]
    rfl

private theorem accept_some {s : State} (left : s.left = wanted :: rest) :
    accept wanted s = .ok true { s with current := s.current + 1 } := by
  have byte : byteAt s.current s = .ok wanted s := byteAt_left 0 (by rw [left]; rfl)
  refine (run_bind (isAtEnd_eq s)).trans ?_
  rw [left]
  refine (run_bind byte).trans ?_
  rw [if_neg (fun other => other rfl)]
  rfl

private theorem accept_none {s : State} (other : s.left.head? ≠ some wanted) : accept wanted s = .ok false s := by
  refine (run_bind (isAtEnd_eq s)).trans ?_
  cases left : s.left with
  | nil => rfl
  | cons b rest =>
    have byte : byteAt s.current s = .ok b s := byteAt_left 0 (by rw [left]; rfl)
    have apart : b ≠ wanted := by simpa [left] using other
    refine (run_bind byte).trans ?_
    rw [if_pos apart]
    rfl

/-- A loop that passes bytes one by one goes on to where its test fails. -/
private theorem loop_eq {test : Scanning Bool} {body : Scanning Unit} (goesOn : Text → Bool)
    (tests : ∀ s : State, test s = .ok (goesOn s.left) s)
    (passes : ∀ {s : State} {b more}, s.left = b :: more → goesOn (b :: more) = true → body s = .ok () (s.past [b]))
    {bytes rest : Text} (inside : ∀ b ∈ bytes, ∀ more, goesOn (b :: more) = true) (stop : goesOn rest = false)
    {s : State} (left : s.left = bytes ++ rest) (enough : bytes.length < n) :
    loop test body n s = .ok () (s.past bytes) := by
  induction bytes generalizing s n with
  | nil =>
    obtain ⟨n, rfl⟩ := Nat.exists_eq_succ_of_ne_zero (Nat.ne_zero_of_lt enough)
    refine (run_bind (tests s)).trans ?_
    rw [left, List.nil_append, stop]
    rfl
  | cons b bytes ih =>
    obtain ⟨n, rfl⟩ := Nat.exists_eq_succ_of_ne_zero (Nat.ne_zero_of_lt enough)
    obtain ⟨here, later⟩ := List.forall_mem_cons.1 inside
    refine (run_bind (tests s)).trans ?_
    rw [left, List.cons_append, here]
    refine (run_bind (passes left (here _))).trans ?_
    have after : (s.past [b]).left = bytes ++ rest := State.left_past (t := [b]) left
    have rounds := ih later after (Nat.lt_of_succ_lt_succ enough)
    rwa [State.past_past] at rounds

/-- The end of the text reads as a zero byte, which is in none of the runs. -/
private theorem skipWhile_eq {p : UInt8 → Bool} (zero : p 0 = false) (line : p Text.newline = false)
    {bytes rest : Text} (inside : ∀ b ∈ bytes, p b = true) (stop : ∀ b, rest.head? = some b → p b = false)
    {s : State} (left : s.left = bytes ++ rest) (enough : bytes.length < n) :
    skipWhile p n s = .ok () (s.past bytes) := by
  refine loop_eq (fun t => p (t.headD 0)) ?_ ?_ (fun b member _ => inside b member) ?_ left enough
  · intro s
    exact run_bind (peek_eq s)
  · intro s b more here passes
    refine pass_eq here ?_
    rintro rfl
    exact absurd passes (by simpa using line)
  · cases rest with
    | nil => exact zero
    | cons b rest => exact stop b rfl

/-- The end of the text reads as a zero byte, before which there is nothing all the same. -/
private theorem loop_isBefore_eq {stop : UInt8} {body : Scanning Unit}
    (passes : ∀ {s : State} {b more}, s.left = b :: more → b ≠ stop → body s = .ok () (s.past [b]))
    {bytes rest : Text} (inside : ∀ b ∈ bytes, (b != stop) = true)
    (ends : ∀ b, rest.head? = some b → (b != stop) = false) {s : State} (left : s.left = bytes ++ rest)
    (enough : bytes.length < n) : loop (isBefore stop) body n s = .ok () (s.past bytes) := by
  refine loop_eq (fun t => t.headD 0 != stop && !t.isEmpty) ?_ ?_ ?_ ?_ left enough
  · intro s
    exact (run_bind (peek_eq s)).trans (run_bind (isAtEnd_eq s))
  · intro s b more here goesOn
    exact passes here (by simpa using goesOn)
  · intro b member more
    simpa using inside b member
  · cases rest with
    | nil => simp
    | cons b rest => simpa using ends b rfl

/-! Tokens and errors. -/

/-- What a chunk adds that ends where the scanner stands. -/
def State.add (s : State) (c : Chunk) : State :=
  match c.kind with
  | .blank | .comment => s
  | .lexeme kind =>
    let t : Token := ⟨kind, c.text, s.line⟩
    { s with tokens := s.tokens ++ [(t, t.literal?)] }
  | .stray => { s with errors := s.errors ++ [⟨.unexpectedCharacter, s.line, .nowhere⟩] }
  | .unclosedString => { s with errors := s.errors ++ [⟨.unterminatedString, s.line, .nowhere⟩] }

/-- A part of what is left is a part of the text. -/
private theorem slice_eq {s t : State} (same : t.source = s.source) (inside : s.current ≤ s.source.length)
    (skipped part : Text) (left : s.left = skipped ++ (part ++ rest)) :
    slice (s.current + skipped.length) (s.current + skipped.length + part.length) t = .ok part t := by
  have after : s.source.drop (s.current + skipped.length) = part ++ rest := by
    rw [← List.drop_drop, ← State.left, left, List.drop_left]
  have size : s.left.length = s.source.length - s.current := List.length_drop
  rw [left, List.length_append, List.length_append] at size
  rw [slice, same, if_pos ⟨Nat.le_add_right .., by omega⟩, List.drop_take, after, Nat.add_sub_cancel_left,
    List.take_left]

private theorem inside_of_left {s : State} (left : s.left = b :: rest) : s.current ≤ s.source.length := by
  have size : s.left.length = s.source.length - s.current := List.length_drop
  rw [left, List.length_cons] at size
  omega

private theorem literal?_eq_none {kind : TokenKind} (number : kind ≠ .number) (string : kind ≠ .string) (lexeme : Text)
    (line : Nat) : (⟨kind, lexeme, line⟩ : Token).literal? = none := by
  unfold Token.literal?
  split
  · exact absurd ‹_› number
  · exact absurd ‹_› string
  · rfl

private theorem literal?_ofWord (t lexeme : Text) (line : Nat) :
    (⟨TokenKind.ofWord t, lexeme, line⟩ : Token).literal? = none := by
  have entries : ∀ entry ∈ TokenKind.keywords, entry.2 ≠ .number ∧ entry.2 ≠ .string := by decide +kernel
  rw [TokenKind.ofWord]
  cases found : TokenKind.keywords.lookup t with
  | none => rfl
  | some kind =>
    obtain ⟨before, after, listed, -⟩ := List.lookup_eq_some_iff.1 found
    obtain ⟨number, string⟩ := entries (t, kind) (by simp [listed])
    exact literal?_eq_none number string lexeme line

/-- A byte that is an operator or a mark starts nothing else. -/
private theorem next_of_ofByte? {b : UInt8} (mark : TokenKind.ofByte? b = some k) (rest : Text) :
    Chunk.next b rest = if k = .slash ∧ rest.head? = some b then Chunk.comment b rest else Chunk.operator k b rest := by
  have bytes : ∀ n : Fin 256, (TokenKind.ofByte? (UInt8.ofFin n)).isSome = true →
      Chunk.isBlank (UInt8.ofFin n) = false ∧ UInt8.ofFin n ≠ Chunk.quote ∧ Text.isDigit (UInt8.ofFin n) = false ∧
        Text.isLetter (UInt8.ofFin n) = false := by
    decide +kernel
  obtain ⟨blank, quote, digit, letter⟩ := bytes b.toFin (Option.isSome_of_eq_some mark)
  have same : UInt8.ofFin b.toFin = b := rfl
  rw [same] at blank quote digit letter
  simp only [Chunk.next, blank, quote, digit, letter, mark, if_false, Bool.false_eq_true]

/-- Operators and marks have no literal, also those that an equal sign completes. -/
private theorem literal?_of_mark {b : UInt8} (mark : TokenKind.ofByte? b = some k) (lexeme : Text) (line : Nat) :
    (⟨k, lexeme, line⟩ : Token).literal? = none ∧
      ∀ longer, k.withEqual? = some longer → (⟨longer, lexeme, line⟩ : Token).literal? = none := by
  have entries : ∀ entry ∈ TokenKind.marks, entry.2 ≠ .number ∧ entry.2 ≠ .string := by decide +kernel
  obtain ⟨alone, completed⟩ := Chunk.marks_of_ofByte? mark
  constructor
  · obtain ⟨number, string⟩ := entries _ alone
    exact literal?_eq_none number string lexeme line
  · intro longer equal
    obtain ⟨number, string⟩ := entries _ (completed longer equal)
    exact literal?_eq_none number string lexeme line

section Chunks

variable {s : State} {first : UInt8} (start : s.start = s.current)

include start

private theorem lexeme_eq (text : Text) (left : s.left = first :: (text ++ rest)) :
    slice (s.past (first :: text)).start (s.past (first :: text)).current (s.past (first :: text)) =
      .ok (first :: text) (s.past (first :: text)) := by
  have part := slice_eq (s := s) (t := s.past (first :: text)) rfl (inside_of_left left) [] (first :: text) left
  have begins : (s.past (first :: text)).start = s.current := start
  rw [begins]
  exact part

private theorem emit_eq (text : Text) (left : s.left = first :: (text ++ rest)) (kind : TokenKind)
    (literal : Option Literal)
    (same : literal = (⟨kind, first :: text, (s.past (first :: text)).line⟩ : Token).literal?) :
    emit kind literal (s.past (first :: text)) =
      .ok () ((s.past (first :: text)).add ⟨.lexeme kind, first :: text⟩) := by
  subst same
  exact run_bind (lexeme_eq start text left)

private theorem word_eq (left : s.left = first :: rest) (enough : rest.length < n) :
    word n (s.past [first]) = .ok () ((s.past (Chunk.word first rest).1.text).add (Chunk.word first rest).1) := by
  obtain ⟨body, after, cut, rfl, inside, stop⟩ := Chunk.run_spec Text.isWordByte rest
  simp only [Chunk.word, cut]
  rw [List.length_append] at enough
  have skipped := skipWhile_eq (by decide) (by decide) inside stop (State.left_past (t := [first]) left)
    (Nat.lt_of_le_of_lt (Nat.le_add_right ..) enough)
  rw [State.past_past] at skipped
  exact (run_bind skipped).trans ((run_bind (lexeme_eq start body left)).trans
    (emit_eq start body left _ _ (literal?_ofWord _ _ _).symm))

private theorem number_eq (left : s.left = first :: rest) (enough : rest.length < n) :
    number n (s.past [first]) = .ok () ((s.past (Chunk.number first rest).1.text).add (Chunk.number first rest).1) := by
  obtain ⟨whole, after, cut, rfl, inside, stop⟩ := Chunk.run_spec Text.isDigit rest
  rw [List.length_append] at enough
  have digits := skipWhile_eq (by decide) (by decide) inside stop (State.left_past (t := [first]) left)
    (Nat.lt_of_le_of_lt (Nat.le_add_right ..) enough)
  rw [State.past_past] at digits
  have here : (s.past ([first] ++ whole)).left = after := State.left_past (t := first :: whole) left
  have finish : ∀ text rest, s.left = first :: (text ++ rest) → (do
      let s ← get
      let lexeme ← slice s.start s.current
      emit .number (some (.number (Number.ofLexeme lexeme))) : Scanning Unit) (s.past (first :: text)) =
        .ok () ((s.past (first :: text)).add ⟨.lexeme .number, first :: text⟩) := fun text rest left =>
    (run_bind (lexeme_eq start text left)).trans (emit_eq start text left _ _ rfl)
  refine (run_bind digits).trans ((run_bind (peek_eq _)).trans ((run_bind (peekNext_eq _)).trans ?_))
  rw [here]
  by_cases pointed : ∃ d more, after = Number.point :: d :: more ∧ Text.isDigit d = true
  · obtain ⟨d, more, rfl, digit⟩ := pointed
    obtain ⟨part, last, cut', rfl, inside', stop'⟩ := Chunk.run_spec Text.isDigit more
    have passed := pass_eq here (by decide)
    have after := State.left_past (t := [Number.point]) here
    have fraction := skipWhile_eq (n := n) (by decide) (by decide) (List.forall_mem_cons.2 ⟨digit, inside'⟩) stop' after
      (by simp only [List.length_cons, List.length_append] at enough ⊢; omega)
    rw [State.past_past] at passed
    rw [State.past_past, State.past_past] at fraction
    rw [if_pos ⟨rfl, digit⟩]
    refine (run_bind passed).trans ((run_bind fraction).trans ?_)
    have text : Chunk.number first (whole ++ Number.point :: d :: (part ++ last)) =
        (⟨.lexeme .number, first :: (whole ++ Number.point :: d :: part)⟩, last) := by
      simp only [Chunk.number, cut, Chunk.fraction, digit, and_self, if_true, cut', List.cons_append]
    rw [text]
    have whole := finish (whole ++ Number.point :: d :: part) last (by simpa using left)
    simpa using whole
  · have text : Chunk.number first (whole ++ after) = (⟨.lexeme .number, first :: whole⟩, after) := by
      simp only [Chunk.number, cut, Chunk.fraction_eq_nil pointed, List.append_nil]
    rw [text, if_neg]
    · exact finish whole after left
    · -- the zero that stands for the end is neither a point nor a digit
      rintro ⟨point, digit⟩
      cases after with
      | nil => exact absurd point (by decide)
      | cons b after =>
        cases after with
        | nil => cases digit
        | cons d more =>
          cases point
          exact pointed ⟨d, more, rfl, digit⟩

private theorem string_eq (left : s.left = Chunk.quote :: rest) (enough : rest.length < n) :
    string n (s.past [Chunk.quote]) =
      .ok () ((s.past (Chunk.string Chunk.quote rest).1.text).add (Chunk.string Chunk.quote rest).1) := by
  obtain ⟨body, after, cut, rfl, inside, stop⟩ := Chunk.run_spec (· != Chunk.quote) rest
  rw [List.length_append] at enough
  have passes : ∀ {s : State} {b more}, s.left = b :: more → b ≠ Chunk.quote →
      (do
        if (← peek) = Text.newline then nextLine
        pass : Scanning Unit) s = .ok () (s.past [b]) := by
    intro s b more here _
    refine (run_bind (peek_eq s)).trans ?_
    rw [here, List.headD_cons]
    by_cases line : b = Text.newline
    · subst line
      rw [if_pos rfl]
      exact run_bind (advance_eq (s := { s with line := s.line + 1 }) here)
    · rw [if_neg line]
      exact pass_eq here line
  have read := loop_isBefore_eq passes inside stop (State.left_past (t := [Chunk.quote]) left)
    (Nat.lt_of_le_of_lt (Nat.le_add_right ..) enough)
  rw [State.past_past] at read
  have here : (s.past ([Chunk.quote] ++ body)).left = after := State.left_past (t := Chunk.quote :: body) left
  refine (run_bind read).trans ((run_bind (isAtEnd_eq _)).trans ?_)
  rw [here]
  cases after with
  | nil =>
    simp only [Chunk.string, cut]
    rfl
  | cons close after =>
    obtain rfl : close = Chunk.quote := by simpa using stop close rfl
    simp only [Chunk.string, cut]
    refine (run_bind (pass_eq here (by decide))).trans ?_
    rw [State.past_past]
    have whole : s.left = Chunk.quote :: ((body ++ [Chunk.quote]) ++ after) := by simpa using left
    have inner := slice_eq (s := s) (t := s.past (Chunk.quote :: (body ++ [Chunk.quote]))) rfl (inside_of_left left)
      [Chunk.quote] body left
    have begins : (s.past (Chunk.quote :: (body ++ [Chunk.quote]))).start = s.current := start
    have ends : (s.past (Chunk.quote :: (body ++ [Chunk.quote]))).current - 1 = s.current + 1 + body.length := by
      simp [State.past]
      omega
    refine (run_bind (f := fun body => emit .string (some (.string body))) ?_).trans
      (emit_eq start (body ++ [Chunk.quote]) whole .string (some (.string body)) (by simp [Token.literal?]))
    show slice ((s.past (Chunk.quote :: (body ++ [Chunk.quote]))).start + 1)
      ((s.past (Chunk.quote :: (body ++ [Chunk.quote]))).current - 1) _ = _
    rw [begins, ends]
    exact inner

omit start in
private theorem comment_eq (left : s.left = Chunk.slash :: Chunk.slash :: rest) (enough : rest.length < n) :
    loop (isBefore Text.newline) pass n (s.past [Chunk.slash, Chunk.slash]) =
      .ok () ((s.past (Chunk.comment Chunk.slash (Chunk.slash :: rest)).1.text).add
        (Chunk.comment Chunk.slash (Chunk.slash :: rest)).1) := by
  obtain ⟨body, after, cut, rfl, inside, stop⟩ := Chunk.run_spec (· != Text.newline) rest
  rw [List.length_append] at enough
  have read := loop_isBefore_eq pass_eq inside stop (State.left_past (t := [Chunk.slash, Chunk.slash]) left)
    (Nat.lt_of_le_of_lt (Nat.le_add_right ..) enough)
  rw [State.past_past] at read
  have again : Chunk.run (· != Text.newline) (Chunk.slash :: (body ++ after)) = (Chunk.slash :: body, after) :=
    Chunk.run_append (List.forall_mem_cons.2 ⟨by decide, inside⟩) stop
  simp only [Chunk.comment, again]
  exact read

private theorem operator_eq (known : TokenKind.ofByte? first = some kind) (other : kind ≠ .slash)
    (left : s.left = first :: rest) :
    mark kind n (s.past [first]) =
      .ok () ((s.past (Chunk.operator kind first rest).1.text).add (Chunk.operator kind first rest).1) := by
  have after : (s.past [first]).left = rest := State.left_past (t := [first]) left
  have alone := emit_eq start [] left kind none (literal?_of_mark known _ _).1.symm
  rw [mark, if_neg other]
  cases longer : kind.withEqual? with
  | none =>
    simp only [Chunk.operator, longer]
    exact alone
  | some both =>
    by_cases completed : rest.head? = some '='.toUInt8
    · obtain ⟨rest, rfl⟩ := List.head?_eq_some_iff.1 completed
      simp only [Chunk.operator, longer, if_true]
      refine (run_bind (accept_some after)).trans ?_
      exact emit_eq start ['='.toUInt8] left both none ((literal?_of_mark known _ _).2 both longer).symm
    · have single : Chunk.operator kind first rest = (⟨.lexeme kind, [first]⟩, rest) := by
        cases rest with
        | nil => simp [Chunk.operator, longer]
        | cons b rest => simp_all [Chunk.operator]
      rw [single]
      exact (run_bind (accept_none (after ▸ completed))).trans alone

private theorem mark_eq (known : TokenKind.ofByte? first = some kind) (left : s.left = first :: rest)
    (enough : rest.length < n) :
    mark kind n (s.past [first]) = .ok () ((s.past (Chunk.next first rest).1.text).add (Chunk.next first rest).1) := by
  rw [next_of_ofByte? known]
  by_cases slash : kind = .slash
  · subst slash
    obtain rfl := Chunk.slash_of_ofByte? known
    have after : (s.past [Chunk.slash]).left = rest := State.left_past (t := [Chunk.slash]) left
    rw [mark, if_pos rfl]
    by_cases twice : rest.head? = some Chunk.slash
    · obtain ⟨rest, rfl⟩ := List.head?_eq_some_iff.1 twice
      rw [if_pos ⟨rfl, twice⟩]
      exact (run_bind (accept_some after)).trans (comment_eq left (Nat.lt_of_succ_lt enough))
    · rw [if_neg fun both => twice both.2]
      exact (run_bind (accept_none (after ▸ twice))).trans (emit_eq start [] left .slash none rfl)
  · rw [if_neg fun both => slash both.1]
    exact operator_eq start known slash left

private theorem unmarked_eq (known : TokenKind.ofByte? first = none) (left : s.left = first :: rest)
    (enough : rest.length < n) :
    unmarked first n { s with current := s.current + 1 } =
      .ok () ((s.past (Chunk.next first rest).1.text).add (Chunk.next first rest).1) := by
  unfold unmarked
  split
  · rename_i blank
    obtain rfl | rfl | rfl := blank <;> rfl
  rename_i inline
  split
  · rename_i line
    subst line
    rfl
  rename_i line
  rw [passed line]
  split
  · rename_i quoted
    subst quoted
    exact string_eq start left enough
  rename_i unquoted
  split
  · rename_i digit
    rw [Chunk.next_of_isDigit digit]
    exact number_eq start left enough
  rename_i digit
  split
  · rename_i letter
    rw [Chunk.next_of_isLetter letter]
    exact word_eq start left enough
  · rename_i letter
    have stray : Chunk.next first rest = (⟨.stray, [first]⟩, rest) := by
      have blank : Chunk.isBlank first = false := by
        simp only [not_or] at inline
        simp [Chunk.isBlank, inline, line]
      simp [Chunk.next, blank, unquoted, digit, letter, known]
    rw [stray]
    rfl

/-- One chunk is read, whatever the text goes on with. -/
theorem scanToken_eq (left : s.left = first :: rest) (enough : rest.length < n) :
    scanToken n s = .ok () ((s.past (Chunk.next first rest).1.text).add (Chunk.next first rest).1) := by
  refine (run_bind (advance_eq left)).trans ?_
  cases known : TokenKind.ofByte? first with
  | some kind =>
    have line : first ≠ Text.newline := by
      rintro rfl
      cases known
    rw [passed line]
    exact mark_eq start known left enough
  | none => exact unmarked_eq start known left enough

end Chunks

/-! The whole text. -/

/-- The state once some chunks have been read. -/
structure State.Reads (s : State) (cs : List Chunk) (e : State) : Prop where
  source : e.source = s.source
  current : e.current = s.current + (cs.flatMap Chunk.text).length
  line : e.line = (Scan.ofChunks s.line cs).endLine
  tokens : e.tokens = s.tokens ++ (Scan.ofChunks s.line cs).tokens.map fun t => (t, t.literal?)
  errors : e.errors = s.errors ++ (Scan.ofChunks s.line cs).errors

/-- The line that has been counted up to the end of a chunk is the line of its token or error. -/
private theorem reads_cons {s : State} (rest : ((s.past c.text).add c).Reads cs e) : s.Reads (c :: cs) e := by
  obtain ⟨kind, text⟩ := c
  obtain ⟨source, current, line, tokens, errors⟩ := rest
  cases kind <;> refine ⟨source, ?_, line, ?_, ?_⟩ <;>
    simp_all [State.add, State.past, Scan.ofChunks, Nat.add_assoc]

private theorem left_add (s : State) (c : Chunk) : (s.add c).left = s.left := by
  unfold State.add
  split <;> rfl

/-- Round by round the scanner reads the next chunk of what is left. -/
private theorem rounds_eq (t : Text) {s : State} (left : s.left = t) (enough : t.length ≤ n) (rounds : t.length < m) :
    ∃ e, loop (return !(← isAtEnd)) (do modify fun s => { s with start := s.current }; scanToken n) m s = .ok () e ∧
      s.Reads (Chunk.all t) e := by
  have test : ∀ s : State, (return !(← isAtEnd) : Scanning Bool) s = .ok (!s.left.isEmpty) s := fun s =>
    run_bind (isAtEnd_eq s)
  induction t using Chunk.all.induct generalizing s m with
  | case1 =>
    obtain ⟨m, rfl⟩ := Nat.exists_eq_succ_of_ne_zero (Nat.ne_zero_of_lt rounds)
    refine ⟨s, (run_bind (test s)).trans ?_, ?_⟩
    · rw [left]
      rfl
    · rw [Chunk.all]
      exact ⟨rfl, rfl, rfl, (List.append_nil _).symm, (List.append_nil _).symm⟩
  | case2 first rest ih =>
    obtain ⟨m, rfl⟩ := Nat.exists_eq_succ_of_ne_zero (Nat.ne_zero_of_lt rounds)
    obtain ⟨body, text, split⟩ := Chunk.next_split first rest
    let here : State := { s with start := s.current }
    let next : State := (here.past (Chunk.next first rest).1.text).add (Chunk.next first rest).1
    have token : (do modify fun s => { s with start := s.current }; scanToken n : Scanning Unit) s = .ok () next :=
      scanToken_eq rfl left enough
    have after : next.left = (Chunk.next first rest).2 := by
      rw [left_add]
      refine State.left_past ?_
      rw [text, List.cons_append, ← split]
      exact left
    have shorter := Chunk.next_length_le first rest
    rw [List.length_cons] at enough rounds
    obtain ⟨e, ran, reads⟩ := ih after (by omega) (Nat.lt_of_le_of_lt shorter (Nat.lt_of_succ_lt_succ rounds))
    refine ⟨e, (run_bind (test s)).trans ?_, ?_⟩
    · rw [left]
      exact (run_bind token).trans ran
    · obtain ⟨source, current, line, tokens, errors⟩ := reads_cons reads
      rw [Chunk.all_cons]
      exact ⟨source, current, line, tokens, errors⟩

/-- Every text is read to its end, and nothing is looked for outside of it. -/
theorem scan_eq (source : Text) : ∃ e, Scanner.scan source = .ok (Lox.scan source).endLine e ∧ e.source = source ∧
    e.current = source.length ∧ e.line = (Lox.scan source).endLine ∧
    e.tokens = ((Lox.scan source).tokens.map fun t => (t, t.literal?)) ∧ e.errors = (Lox.scan source).errors := by
  obtain ⟨e, ran, reads⟩ := rounds_eq (n := source.length + 1) (s := ⟨source, 0, 0, 1, [], []⟩) source rfl
    (Nat.le_succ _) (Nat.lt_succ_self _)
  have texts : (Chunk.all source).flatMap Chunk.text = source := (Chunk.cuts_iff.2 rfl : Chunk.Cuts source _).texts
  refine ⟨e, (run_bind ran).trans ?_, reads.source, ?_, reads.line, reads.tokens, reads.errors⟩
  · exact congrArg (fun line => EStateM.Result.ok line e) reads.line
  · rw [reads.current, texts, Nat.zero_add]

/-- At the end of a text there is nothing to take. -/
example : ∃ s, advance ⟨[], 0, 0, 1, [], []⟩ = .error (.outside 0) s := ⟨_, rfl⟩

end Scanner

/-- The scanner is the longest-match tokenizer and accounts for every byte. A program text is cut into chunks in the
one way in which each is the longest start of what is left that is a chunk of any kind. So words, numbers and operators
go on as far as they can, two slashes outside a string start a comment, which goes up to the end of its line, and a word
is a keyword if it is one as a whole. The chunks, none of them empty, are all of the text; an unclosed string can only
be the last. The tokens are the lexemes in their order, the errors are the unexpected bytes and the unclosed string, and
each is on the line that is one more than the number of line ends up to its end. So is the end of the tokens.

The scanner that goes through the text by position and counts the lines itself finds just that. It returns from every
text, so that it never looks outside of it, and stands at its end. -/
theorem scan_is_longest_match (source : Text) : ∃ cs : List Chunk,
    (∀ ds, Chunk.Cuts source ds ↔ ds = cs) ∧ cs.flatMap Chunk.text = source ∧ (∀ c ∈ cs, c.text ≠ []) ∧
      (∀ before c after, cs = before ++ c :: after → c.kind = .unclosedString → after = []) ∧
      scan source = ⟨(Chunk.ends [] cs).filterMap Chunk.token?, (Chunk.ends [] cs).filterMap Chunk.error?,
        1 + Text.newlines source⟩ ∧
      ∃ s, Scanner.scan source = .ok (1 + Text.newlines source) s ∧ s.source = source ∧ s.current = source.length ∧
        s.line = 1 + Text.newlines source ∧
        s.tokens = ((Chunk.ends [] cs).filterMap Chunk.token?).map (fun t => (t, t.literal?)) ∧
        s.errors = (Chunk.ends [] cs).filterMap Chunk.error? := by
  have cuts : Chunk.Cuts source (Chunk.all source) := Chunk.cuts_iff.2 rfl
  have lines := Chunk.ofChunks_eq [] (Chunk.all source)
  rw [List.nil_append, cuts.texts] at lines
  have scanned : scan source = ⟨(Chunk.ends [] (Chunk.all source)).filterMap Chunk.token?,
    (Chunk.ends [] (Chunk.all source)).filterMap Chunk.error?, 1 + Text.newlines source⟩ := lines
  have positions := Scanner.scan_eq source
  rw [scanned] at positions
  refine ⟨Chunk.all source, fun _ => Chunk.cuts_iff, cuts.texts, cuts.nonempty, ?_, scanned, positions⟩
  intro before c after split unclosed
  rw [split] at cuts
  exact cuts.last unclosed

/-- A number takes its point only with a digit, an operator its equal sign, and a stray byte, here zero, is
an error on its line, as is the string that is left open after the line end in it. -/
example : scan (Text.ofString "1.!==orb// \"\n\x00\"\n") =
    ⟨[⟨.number, Text.ofString "1", 1⟩, ⟨.dot, Text.ofString ".", 1⟩, ⟨.bangEqual, Text.ofString "!=", 1⟩,
      ⟨.equal, Text.ofString "=", 1⟩, ⟨.identifier, Text.ofString "orb", 1⟩],
      [⟨.unexpectedCharacter, 2, .nowhere⟩, ⟨.unterminatedString, 3, .nowhere⟩], 3⟩ := by
  cbv

end Lox
