import Lox.Proofs.Token.Chunks

/-! Longest match. The classes of chunks are described by the texts that belong to them, without a word on
how they are found. A text is cut into chunks so that each is the longest start of what is left that
belongs to any class; there is one way to do so, and it is the way that programs are read. -/
namespace Lox

/-- Operators and marks as they are written. -/
def TokenKind.marks : List (Text × TokenKind) :=
  [("(", leftParen), (")", rightParen), ("\x7b", leftBrace), ("\x7d", rightBrace), (",", comma), (".", dot),
    ("-", minus), ("+", plus), (";", semicolon), ("/", slash), ("*", star), ("!", bang), ("!=", bangEqual),
    ("=", equal), ("==", equalEqual), (">", greater), (">=", greaterEqual), ("<", less),
    ("<=", lessEqual)].map fun (text, kind) => (Text.ofString text, kind)

namespace Chunk

def blanks : Text := Text.ofString " \t\r\n"

def slash : UInt8 := '/'.toUInt8

/-- A byte that no other chunk starts with. -/
structure Unexpected (b : UInt8) : Prop where
  blank : b ∉ blanks
  quote : b ≠ quote
  digit : Text.isDigit b = false
  letter : Text.isLetter b = false
  mark : ∀ k, ([b], k) ∉ TokenKind.marks

/-- The texts of each class of chunks. A number has a point only between digits, a keyword is a word as a
whole, and a comment does not include the end of its line. -/
inductive Spells : ChunkKind → Text → Prop where
  | blank (listed : b ∈ blanks) : Spells .blank [b]
  | comment (inside : ∀ b ∈ body, b ≠ Text.newline) : Spells .comment (slash :: slash :: body)
  | mark (listed : (t, k) ∈ TokenKind.marks) : Spells (.lexeme k) t
  | string (inside : ∀ b ∈ body, b ≠ quote) : Spells (.lexeme .string) (quote :: (body ++ [quote]))
  | whole (digit : Text.isDigit d = true) (digits : ∀ b ∈ ds, Text.isDigit b = true) :
      Spells (.lexeme .number) (d :: ds)
  | fraction (digit : Text.isDigit d = true) (digits : ∀ b ∈ ds, Text.isDigit b = true)
      (digit' : Text.isDigit e = true) (digits' : ∀ b ∈ es, Text.isDigit b = true) :
      Spells (.lexeme .number) (d :: (ds ++ Number.point :: e :: es))
  | keyword (listed : (t, k) ∈ TokenKind.keywords) : Spells (.lexeme k) t
  | identifier (letter : Text.isLetter a = true) (inside : ∀ b ∈ body, Text.isWordByte b = true)
      (free : ∀ k, (a :: body, k) ∉ TokenKind.keywords) : Spells (.lexeme .identifier) (a :: body)
  | stray (unexpected : Unexpected b) : Spells .stray [b]
  | unclosedString (inside : ∀ b ∈ body, b ≠ quote) : Spells .unclosedString (quote :: body)

/-- A chunk at the start of a text: no longer start of the text belongs to any class. -/
structure Longest (t : Text) (c : Chunk) (rest : Text) : Prop where
  split : t = c.text ++ rest
  spells : Spells c.kind c.text
  longest : t = longer ++ more → Spells k longer → longer.length ≤ c.text.length

/-- A text cut into longest chunks. -/
inductive Cuts : Text → List Chunk → Prop where
  | done : Cuts [] []
  | more (first : Longest t c rest) (later : Cuts rest cs) : Cuts t (c :: cs)

/-! What is read belongs to its class. -/

private theorem mem_blanks {b : UInt8} : b ∈ blanks ↔ isBlank b = true := by
  have bytes : blanks = [' '.toUInt8, '\t'.toUInt8, '\r'.toUInt8, Text.newline] := by decide
  simp only [bytes, isBlank, List.mem_cons, List.not_mem_nil, or_false, Bool.or_eq_true, beq_iff_eq]
  tauto

/-- Operators of one byte, and those that an equal sign completes. -/
theorem marks_of_ofByte? {b : UInt8} (mark : TokenKind.ofByte? b = some k) :
    ([b], k) ∈ TokenKind.marks ∧
      ∀ longer, k.withEqual? = some longer → ([b, '='.toUInt8], longer) ∈ TokenKind.marks := by
  have bytes : ∀ n : Fin 256, ∀ k ∈ TokenKind.ofByte? (UInt8.ofFin n), ([UInt8.ofFin n], k) ∈ TokenKind.marks ∧
      ∀ longer ∈ k.withEqual?, ([UInt8.ofFin n, '='.toUInt8], longer) ∈ TokenKind.marks := by decide +kernel
  exact bytes b.toFin k mark

private theorem ofByte?_of_marks {b : UInt8} (listed : ([b], k) ∈ TokenKind.marks) : TokenKind.ofByte? b = some k := by
  have entries : ∀ entry ∈ TokenKind.marks, entry.1.length = 1 →
      entry.1.head?.bind TokenKind.ofByte? = some entry.2 := by decide +kernel
  exact entries _ listed rfl

private theorem word_spells (letter : Text.isLetter first = true) (rest : Text) :
    Spells (word first rest).1.kind (word first rest).1.text := by
  obtain ⟨body, after, cut, -, inside, -⟩ := run_spec Text.isWordByte rest
  simp only [word, cut, TokenKind.ofWord]
  cases found : TokenKind.keywords.lookup (first :: body) with
  | some k =>
    obtain ⟨before, after, entries, -⟩ := List.lookup_eq_some_iff.1 found
    exact .keyword (by simp [entries])
  | none =>
    refine .identifier letter inside fun k listed => ?_
    have apart := List.lookup_eq_none_iff.1 found _ listed
    simp at apart

private theorem number_spells (digit : Text.isDigit first = true) (rest : Text) :
    Spells (number first rest).1.kind (number first rest).1.text := by
  obtain ⟨digits, after, cut, -, inside, -⟩ := run_spec Text.isDigit rest
  simp only [number, cut, fraction]
  split
  · split
    · rename_i mark d more point
      obtain ⟨rfl, digit'⟩ := point
      obtain ⟨part, last, cut', -, inside', -⟩ := run_spec Text.isDigit more
      simp only [cut', List.cons_append]
      exact .fraction digit inside digit' inside'
    · simpa using .whole digit inside
  · simpa using .whole digit inside

private theorem string_spells (rest : Text) : Spells (string quote rest).1.kind (string quote rest).1.text := by
  obtain ⟨body, after, cut, -, inside, stop⟩ := run_spec (· != quote) rest
  have free : ∀ b ∈ body, b ≠ quote := fun b member => by simpa using inside b member
  cases after with
  | nil =>
    simp only [string, cut]
    exact .unclosedString free
  | cons close after =>
    obtain rfl : close = quote := by simpa using stop close rfl
    simp only [string, cut, List.cons_append]
    exact .string free

private theorem operator_spells {first : UInt8} (mark : TokenKind.ofByte? first = some k) (rest : Text) :
    Spells (operator k first rest).1.kind (operator k first rest).1.text := by
  obtain ⟨alone, completed⟩ := marks_of_ofByte? mark
  unfold operator
  split
  · rename_i longer next after equal
    split
    · rename_i same
      rw [same]
      exact .mark (completed longer equal)
    · exact .mark alone
  · exact .mark alone

theorem slash_of_ofByte? {first : UInt8} (mark : TokenKind.ofByte? first = some .slash) : first = slash := by
  have entries : ∀ entry ∈ TokenKind.marks, entry.2 = .slash → entry.1 = [slash] := by decide +kernel
  exact List.singleton_inj.1 (entries _ (marks_of_ofByte? mark).1 rfl)

private theorem comment_spells (rest : Text) :
    Spells (comment slash (slash :: rest)).1.kind (comment slash (slash :: rest)).1.text := by
  obtain ⟨body, after, cut, -, inside, -⟩ := run_spec (· != Text.newline) (slash :: rest)
  have starts : (slash != Text.newline) = true := by decide
  have text : slash :: rest.takeWhile (· != Text.newline) = body := by
    have first := congrArg Prod.fst cut
    rwa [run, List.takeWhile_cons, if_pos starts] at first
  simp only [comment, cut, ← text]
  refine .comment fun b member => ?_
  have passes := inside b (text ▸ List.mem_cons_of_mem _ member)
  simpa using passes

theorem next_spells (first : UInt8) (rest : Text) :
    Spells (next first rest).1.kind (next first rest).1.text := by
  unfold next
  split
  · exact .blank (mem_blanks.2 ‹_›)
  split
  · rename_i quoted
    rw [quoted]
    exact string_spells rest
  split
  · exact number_spells ‹_› rest
  split
  · exact word_spells ‹_› rest
  split
  · rename_i blank quoted digit letter _ mark
    refine .stray ⟨fun listed => blank (mem_blanks.1 listed), quoted, by simpa using digit, by simpa using letter,
      fun k listed => ?_⟩
    rw [ofByte?_of_marks listed] at mark
    cases mark
  · rename_i k mark
    split
    · rename_i twice
      obtain ⟨rfl, again⟩ := twice
      obtain ⟨more, rfl⟩ := List.head?_eq_some_iff.1 again
      obtain rfl := slash_of_ofByte? mark
      exact comment_spells more
    · exact operator_spells mark rest

/-! No start of a text that belongs to a class is longer than what is read. -/

private theorem run_append_fst {p : UInt8 → Bool} (inside : ∀ b ∈ body, p b = true) (more : Text) :
    (run p (body ++ more)).1 = body ++ (run p more).1 := List.takeWhile_append_of_pos inside

theorem next_of_isDigit (digit : Text.isDigit first = true) (rest : Text) :
    next first rest = number first rest := by
  have blank : isBlank first = false := by
    cases blank : isBlank first with
    | false => rfl
    | true =>
      simp only [isBlank, Bool.or_eq_true, beq_iff_eq] at blank
      obtain ((rfl | rfl) | rfl) | rfl := blank <;> exact absurd digit (by decide)
  have unquoted : first ≠ quote := by
    rintro rfl
    exact absurd digit (by decide)
  simp [next, blank, unquoted, digit]

private theorem operator_closed (k : TokenKind) (first : UInt8) (rest : Text) :
    (operator k first rest).1.kind ≠ .unclosedString := by
  unfold operator
  split
  · split
    · nofun
    · nofun
  · nofun

private theorem quote_of_unclosed (unclosed : (next first rest).1.kind = .unclosedString) : first = quote := by
  unfold next at unclosed
  split at unclosed
  · cases unclosed
  split at unclosed
  · assumption
  split at unclosed
  · cases unclosed
  split at unclosed
  · cases unclosed
  split at unclosed
  · cases unclosed
  · split at unclosed
    · cases unclosed
    · exact absurd unclosed (operator_closed _ _ _)

/-- A chunk is the start of the text that it is read from, whether or not it is closed. -/
theorem next_split (first : UInt8) (rest : Text) :
    ∃ body, (next first rest).1.text = first :: body ∧ rest = body ++ (next first rest).2 := by
  by_cases closed : (next first rest).1.kind = .unclosedString
  · obtain rfl := quote_of_unclosed closed
    have reads : next quote rest = string quote rest := rfl
    rw [reads] at closed ⊢
    obtain ⟨body, after, cut, split, -, -⟩ := run_spec (· != quote) rest
    cases after with
    | nil =>
      simp only [string, cut]
      exact ⟨body, rfl, split⟩
    | cons close after =>
      simp only [string, cut] at closed
      cases closed
  · obtain ⟨body, split, text, -⟩ := next_stable first rest closed
    exact ⟨body, text, split⟩

/-- What is read from a text that starts with one of a class: at least that, and if nothing follows, just that. -/
def Reads (k : ChunkKind) (first : UInt8) (body more : Text) : Prop :=
  ∃ extra, (next first (body ++ more)).1.text = first :: (body ++ extra) ∧
    (more = [] → (next first (body ++ more)).1.kind = k)

private theorem marks_read : ∀ entry ∈ TokenKind.marks, ∃ first body, entry.1 = first :: body ∧
    ∀ more, Reads (.lexeme entry.2) first body more := by
  have single : ∀ {b k}, (next b []).1.kind = .lexeme k → ∀ more, Reads (.lexeme k) b [] more := by
    intro b k alone more
    obtain ⟨extra, starts, -⟩ := next_split b more
    refine ⟨extra, starts, ?_⟩
    rintro rfl
    exact alone
  have double : ∀ {b c k}, (∀ more, next b (c :: more) = (⟨.lexeme k, [b, c]⟩, more)) →
      ∀ more, Reads (.lexeme k) b [c] more := by
    intro b c k reads more
    refine ⟨[], ?_, fun _ => ?_⟩
    · rw [List.singleton_append, reads]
      rfl
    · rw [List.singleton_append, reads]
  intro entry listed
  simp only [TokenKind.marks, List.map_cons, List.map_nil, List.mem_cons, List.not_mem_nil, or_false] at listed
  rcases listed with rfl | rfl | rfl | rfl | rfl | rfl | rfl | rfl | rfl | rfl | rfl | rfl | rfl | rfl | rfl |
    rfl | rfl | rfl | rfl
  all_goals first
    | exact ⟨_, _, rfl, single rfl⟩
    | exact ⟨_, _, rfl, double fun _ => rfl⟩

/-- A text of a class is read as a chunk of that class, and together with what follows as one that is no
shorter. -/
theorem Spells.reads (spells : Spells k t) : ∃ first body, t = first :: body ∧ ∀ more, Reads k first body more := by
  have word : ∀ {first body k}, Text.isLetter first = true → (∀ b ∈ body, Text.isWordByte b = true) →
      TokenKind.ofWord (first :: body) = k → ∀ more, Reads (.lexeme k) first body more := by
    intro first body k letter inside kind more
    rw [Reads, next_of_isLetter letter]
    simp only [Chunk.word, run_append_fst inside]
    refine ⟨_, rfl, ?_⟩
    rintro rfl
    simp [run, kind]
  cases spells with
  | @blank b listed =>
    refine ⟨b, [], rfl, fun more => ?_⟩
    simp only [Reads, next, mem_blanks.1 listed, if_true]
    exact ⟨[], rfl, fun _ => trivial⟩
  | @comment body inside =>
    refine ⟨slash, slash :: body, rfl, fun more => ?_⟩
    have inside' : ∀ b ∈ slash :: body, (b != Text.newline) = true :=
      List.forall_mem_cons.2 ⟨by decide, fun b member => by simpa using inside b member⟩
    have reads : next slash (slash :: body ++ more) = Chunk.comment slash (slash :: body ++ more) := rfl
    rw [Reads, reads]
    simp only [Chunk.comment, run_append_fst inside']
    exact ⟨_, rfl, fun _ => trivial⟩
  | mark listed => exact marks_read _ listed
  | @string body inside =>
    refine ⟨quote, body ++ [quote], rfl, fun more => ?_⟩
    have reads : next quote (body ++ [quote] ++ more) = Chunk.string quote (body ++ [quote] ++ more) := rfl
    have cut : run (· != quote) (body ++ [quote] ++ more) = (body, quote :: more) := by
      rw [List.append_assoc]
      exact run_append (fun b member => by simpa using inside b member) (by simp)
    rw [Reads, reads]
    simp only [Chunk.string, cut]
    exact ⟨[], by simp, fun _ => trivial⟩
  | @whole d ds digit digits =>
    refine ⟨d, ds, rfl, fun more => ?_⟩
    rw [Reads, next_of_isDigit digit]
    simp only [number, run_append_fst digits, List.cons_append, List.append_assoc]
    exact ⟨_, rfl, fun _ => trivial⟩
  | @fraction d ds e es digit digits digit' digits' =>
    refine ⟨d, ds ++ Number.point :: e :: es, rfl, fun more => ?_⟩
    have cut : run Text.isDigit (ds ++ Number.point :: e :: es ++ more) =
        (ds, Number.point :: e :: (es ++ more)) := by
      rw [List.append_assoc]
      refine run_append digits ?_
      rintro _ ⟨⟩
      decide
    rw [Reads, next_of_isDigit digit]
    simp only [number, cut, Chunk.fraction, digit', and_self, if_true, run_append_fst digits']
    exact ⟨(run Text.isDigit more).1, by simp, fun _ => trivial⟩
  | keyword listed =>
    have entries : ∀ entry ∈ TokenKind.keywords, entry.1.head?.any Text.isLetter = true ∧
        (∀ b ∈ entry.1.tail, Text.isWordByte b = true) ∧ TokenKind.ofWord entry.1 = entry.2 := by decide +kernel
    obtain ⟨letter, inside, kind⟩ := entries _ listed
    cases t with
    | nil => cases letter
    | cons first body => exact ⟨first, body, rfl, word letter inside kind⟩
  | @identifier a body letter inside free =>
    refine ⟨a, body, rfl, word letter inside ?_⟩
    have absent : TokenKind.keywords.lookup (a :: body) = none := by
      refine List.lookup_eq_none_iff.2 fun entry listed => ?_
      simp only [bne_iff_ne, ne_eq]
      intro same
      exact free entry.2 (same ▸ listed)
    rw [TokenKind.ofWord, absent]
    rfl
  | @stray b unexpected =>
    refine ⟨b, [], rfl, fun more => ?_⟩
    have blank : isBlank b = false := by simpa [mem_blanks] using unexpected.blank
    have mark : TokenKind.ofByte? b = none := Option.eq_none_iff_forall_ne_some.2 fun k mark =>
      unexpected.mark k (marks_of_ofByte? mark).1
    simp only [Reads, next, blank, unexpected.quote, unexpected.digit, unexpected.letter, mark]
    exact ⟨[], rfl, fun _ => rfl⟩
  | @unclosedString body inside =>
    refine ⟨quote, body, rfl, fun more => ?_⟩
    have inside' : ∀ b ∈ body, (b != quote) = true := fun b member => by simpa using inside b member
    have reads : next quote (body ++ more) = Chunk.string quote (body ++ more) := rfl
    obtain ⟨part, after, -, rfl, inside'', stop⟩ := run_spec (· != quote) more
    have cut : run (· != quote) (body ++ (part ++ after)) = (body ++ part, after) := by
      rw [← List.append_assoc]
      exact run_append (List.forall_mem_append.2 ⟨inside', inside''⟩) stop
    rw [Reads, reads]
    cases after with
    | nil =>
      simp only [Chunk.string, cut]
      exact ⟨part, rfl, fun _ => trivial⟩
    | cons close after =>
      simp only [Chunk.string, cut]
      exact ⟨part ++ [close], by simp, by simp⟩

/-- Nothing belongs to two classes. -/
theorem Spells.kind_unique (first : Spells k t) (second : Spells k' t) : k = k' := by
  obtain ⟨a, body, rfl, reads⟩ := first.reads
  obtain ⟨_, _, same, reads'⟩ := second.reads
  cases same
  obtain ⟨_, -, kind⟩ := reads []
  obtain ⟨_, -, kind'⟩ := reads' []
  exact (kind rfl).symm.trans (kind' rfl)

private theorem next_longest (first : UInt8) (rest : Text) :
    Longest (first :: rest) (next first rest).1 (next first rest).2 := by
  obtain ⟨body, text, split⟩ := next_split first rest
  refine ⟨?_, next_spells first rest, ?_⟩
  · rw [text, List.cons_append, ← split]
  · intro longer more _ starts spells
    -- whatever stands at the front is read through, so the chunk that is read is no shorter
    obtain ⟨_, inner, rfl, reads⟩ := spells.reads
    rw [List.cons_append] at starts
    obtain ⟨rfl, rfl⟩ := List.cons.inj starts
    obtain ⟨extra, whole, -⟩ := reads more
    rw [whole]
    simp

private theorem Longest.unique (one : Longest t c rest) (other : Longest t c' rest') : c = c' ∧ rest = rest' := by
  have size : c.text.length = c'.text.length :=
    Nat.le_antisymm (other.longest one.split one.spells) (one.longest other.split other.spells)
  obtain ⟨text, same⟩ := List.append_inj (one.split.symm.trans other.split) size
  have kind : c.kind = c'.kind := one.spells.kind_unique (text ▸ other.spells)
  refine ⟨?_, same⟩
  cases c
  cases c'
  cases text
  cases kind
  rfl

/-- What cannot go on stands at the end. -/
theorem Longest.last (longest : Longest t c rest) (unclosed : c.kind = .unclosedString) : rest = [] := by
  obtain ⟨k, text⟩ := c
  obtain rfl : k = .unclosedString := unclosed
  have spells := longest.spells
  cases spells with
  | @unclosedString body inside =>
    cases rest with
    | nil => rfl
    | cons b rest =>
      exfalso
      have further : t = (quote :: (body ++ [b])) ++ rest := by simp [longest.split]
      have longer : ∀ {k}, ¬ Spells k (quote :: (body ++ [b])) := fun spells => by
        have size := longest.longest further spells
        simp only [List.length_cons, List.length_append, List.length_nil, Nat.zero_add] at size
        exact Nat.not_succ_le_self _ size
      by_cases close : b = quote
      · rw [close] at longer
        exact longer (.string inside)
      · refine longer (.unclosedString (List.forall_mem_append.2 ⟨inside, ?_⟩))
        simpa using close

/-- There is one way to cut a text into longest chunks. -/
theorem cuts_iff : Cuts t cs ↔ cs = all t := by
  induction t using all.induct generalizing cs with
  | case1 =>
    rw [all]
    constructor
    · intro cuts
      cases cuts with
      | done => rfl
      | more first _ =>
        obtain ⟨_, _, text, -⟩ := first.spells.reads
        have split := first.split
        rw [text] at split
        cases split
    · rintro rfl
      exact .done
  | case2 first rest ih =>
    rw [all_cons]
    constructor
    · intro cuts
      cases cuts with
      | more longest later =>
        obtain ⟨rfl, rfl⟩ := longest.unique (next_longest first rest)
        rw [ih.1 later]
    · rintro rfl
      exact .more (next_longest first rest) (ih.2 rfl)

namespace Cuts

theorem texts (cuts : Cuts t cs) : cs.flatMap Chunk.text = t := by
  induction cuts with
  | done => rfl
  | more first _ ih => rw [List.flatMap_cons, ih, ← first.split]

theorem nonempty (cuts : Cuts t cs) : ∀ c ∈ cs, c.text ≠ [] := by
  induction cuts with
  | done => nofun
  | more first _ ih =>
    obtain ⟨_, _, text, -⟩ := first.spells.reads
    exact List.forall_mem_cons.2 ⟨by simp [text], ih⟩

/-- An unclosed string is the last chunk. -/
theorem last (cuts : Cuts t (before ++ c :: after)) (unclosed : c.kind = .unclosedString) : after = [] := by
  induction before generalizing t with
  | nil =>
    cases cuts with
    | more first later =>
      rw [first.last unclosed, cuts_iff, all] at later
      exact later
  | cons _ _ ih =>
    cases cuts with
    | more _ later => exact ih later

end Cuts

/-- Chunks, each with the text up to its end. -/
def ends (before : Text) : List Chunk → List (Chunk × Text)
  | [] => []
  | c :: cs => (c, before ++ c.text) :: ends (before ++ c.text) cs

/-- The line on which a text ends. -/
def lineAfter (t : Text) : Nat := 1 + Text.newlines t

/-- The token that a lexeme is. -/
def token? : Chunk × Text → Option Token
  | (⟨.lexeme k, lexeme⟩, upTo) => some ⟨k, lexeme, lineAfter upTo⟩
  | _ => none

/-- The error that a chunk is. -/
def error? : Chunk × Text → Option StaticError
  | (⟨.stray, _⟩, upTo) => some ⟨.unexpectedCharacter, lineAfter upTo, .nowhere⟩
  | (⟨.unclosedString, _⟩, upTo) => some ⟨.unterminatedString, lineAfter upTo, .nowhere⟩
  | _ => none

private theorem lineAfter_append (before t : Text) : lineAfter (before ++ t) = lineAfter before + Text.newlines t := by
  simp [lineAfter, Text.newlines, Nat.add_assoc]

/-- A token or an error is on the line on which the text up to its end ends. -/
theorem ofChunks_eq (before : Text) (cs : List Chunk) : Scan.ofChunks (lineAfter before) cs =
    ⟨(ends before cs).filterMap token?, (ends before cs).filterMap error?,
      lineAfter (before ++ cs.flatMap Chunk.text)⟩ := by
  induction cs generalizing before with
  | nil => simp [Scan.ofChunks, ends]
  | cons c cs ih =>
    obtain ⟨k, text⟩ := c
    have later := ih (before ++ text)
    rw [lineAfter_append] at later
    simp only [Scan.ofChunks, later, ends, List.filterMap_cons, List.flatMap_cons, List.append_assoc]
    cases k <;> simp only [token?, error?, lineAfter_append]

end Chunk

end Lox
