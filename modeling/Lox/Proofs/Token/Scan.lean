import Lox.Proofs.Token.Chunks
import Lox.Proofs.Tree.Respelling

/-! Tokens of texts that are put together or written anew. The tokens of a text after a line end are
those of the text alone, only further down; tokens with other identifiers are the tokens of a text. -/
namespace Lox

/-- A token so many lines further down. -/
def Token.down (d : Nat) (t : Token) : Token := { t with line := t.line + d }

namespace Scan

/-- A scan so many lines further down. -/
def down (d : Nat) (s : Scan) : Scan :=
  ⟨s.tokens.map (·.down d), s.errors.map fun e => { e with line := e.line + d }, s.endLine + d⟩

/-- One scan after the other. -/
def append (a b : Scan) : Scan := ⟨a.tokens ++ b.tokens, a.errors ++ b.errors, b.endLine⟩

private theorem ofChunks_append (line : Nat) (cs ds : List Chunk) : ofChunks line (cs ++ ds) =
    (ofChunks line cs).append (ofChunks (ofChunks line cs).endLine ds) := by
  induction cs generalizing line with
  | nil => rfl
  | cons c cs ih =>
    simp only [List.cons_append, ofChunks, ih]
    cases c.kind <;> rfl

private theorem ofChunks_down (d line : Nat) (cs : List Chunk) :
    ofChunks (line + d) cs = (ofChunks line cs).down d := by
  induction cs generalizing line with
  | nil => rfl
  | cons c cs ih =>
    have lower : line + d + Text.newlines c.text = line + Text.newlines c.text + d := Nat.add_right_comm ..
    simp only [ofChunks, lower, ih]
    cases c.kind <;> rfl

private theorem endLine_ofChunks (line : Nat) (cs : List Chunk) :
    (ofChunks line cs).endLine = line + Text.newlines (cs.flatMap Chunk.text) := by
  induction cs generalizing line with
  | nil => rfl
  | cons c cs ih =>
    have step : (ofChunks line (c :: cs)).endLine = (ofChunks (line + Text.newlines c.text) cs).endLine := by
      simp only [ofChunks]
      cases c.kind <;> rfl
    rw [step, ih, List.flatMap_cons, Text.newlines, Text.newlines, Text.newlines, List.count_append, Nat.add_assoc]

/-- A token is a chunk. -/
theorem mem_of_token (token : t ∈ (ofChunks line cs).tokens) :
    ∃ c ∈ cs, c.kind = .lexeme t.kind ∧ c.text = t.lexeme := by
  induction cs generalizing line with
  | nil => cases token
  | cons c cs ih =>
    have later : t ∈ (ofChunks (line + Text.newlines c.text) cs).tokens →
        ∃ c' ∈ c :: cs, c'.kind = .lexeme t.kind ∧ c'.text = t.lexeme := by
      intro token
      obtain ⟨c', among, same⟩ := ih token
      exact ⟨c', List.mem_cons_of_mem _ among, same⟩
    simp only [ofChunks] at token
    cases kind : c.kind with
    | lexeme k =>
      simp only [kind] at token
      cases token with
      | head => exact ⟨c, List.mem_cons_self, kind, rfl⟩
      | tail _ token => exact later token
    | blank | comment | stray | unclosedString =>
      simp only [kind] at token
      exact later token

/-- A string that is left open is reported. -/
theorem closed_of_errors (reported : ∀ e ∈ (ofChunks line cs).errors, e.cause ≠ .unterminatedString) :
    Chunk.Closed cs := by
  induction cs generalizing line with
  | nil => nofun
  | cons c cs ih =>
    simp only [ofChunks] at reported
    cases kind : c.kind with
    | lexeme | blank | comment =>
      simp only [kind] at reported
      exact List.forall_mem_cons.2 ⟨by rw [kind]; nofun, ih reported⟩
    | stray =>
      simp only [kind] at reported
      exact List.forall_mem_cons.2 ⟨by rw [kind]; nofun, ih (List.forall_mem_cons.1 reported).2⟩
    | unclosedString =>
      simp only [kind] at reported
      exact absurd rfl (List.forall_mem_cons.1 reported).1

/-- Without errors there is no string that is left open. -/
theorem closed_of_clean (clean : (ofChunks line cs).errors = []) : Chunk.Closed cs := by
  apply closed_of_errors
  rw [clean]
  nofun

end Scan

/-- Reading two texts with a line end between them, of which the first leaves no string open. -/
theorem scan_seam (a b : Text) (closed : Chunk.Closed (Chunk.all a)) :
    scan (a ++ Text.newline :: b) = (scan a).append ((scan b).down (Text.newlines a + 1)) := by
  have last : (scan a).endLine + 1 = 1 + (Text.newlines a + 1) := by
    rw [scan, Scan.endLine_ofChunks, Chunk.texts_all a closed, Nat.add_assoc]
  have further : Scan.ofChunks (scan a).endLine (⟨.blank, [Text.newline]⟩ :: Chunk.all b) =
      Scan.ofChunks ((scan a).endLine + 1) (Chunk.all b) := rfl
  calc
    _ = Scan.ofChunks 1 (Chunk.all a ++ ⟨.blank, [Text.newline]⟩ :: Chunk.all b) := by
      rw [scan, Chunk.all_append_newline a b closed]
    _ = (scan a).append (Scan.ofChunks (scan a).endLine (⟨.blank, [Text.newline]⟩ :: Chunk.all b)) :=
      Scan.ofChunks_append ..
    _ = _ := by rw [further, last, Scan.ofChunks_down, scan, scan]

theorem scan_append_newline (a b : Text) (clean : (scan a).errors = []) :
    scan (a ++ Text.newline :: b) = (scan a).append ((scan b).down (Text.newlines a + 1)) :=
  scan_seam a b (Scan.closed_of_clean clean)

/-- Scanning is compositional at line ends. Whatever stands before a line end, errors of other kinds included, as long
as it leaves no string open: the tokens and the errors are those of what stands before it and then those of what comes
after it, each read alone. What comes after it is further down by the line ends before and the one between, and so is
the end of the tokens; nothing else about it changes. -/
theorem scanning_composes_at_newlines (a b : Text) (closed : ∀ e ∈ (scan a).errors, e.cause ≠ .unterminatedString) :
    let lower := Text.newlines a + 1
    (scan (a ++ Text.newline :: b)).tokens =
      (scan a).tokens ++ (scan b).tokens.map (fun t => { t with line := t.line + lower }) ∧
    (scan (a ++ Text.newline :: b)).errors =
      (scan a).errors ++ (scan b).errors.map (fun e => { e with line := e.line + lower }) ∧
    (scan (a ++ Text.newline :: b)).endLine = (scan b).endLine + lower := by
  rw [scan_seam a b (Scan.closed_of_errors closed)]
  exact ⟨rfl, rfl, rfl⟩

/-- The first text ends in a number with a point after it and has a stray byte and a quote in a comment; the second
starts with a digit, has a string over two lines and leaves one open. -/
theorem scanning_composes_at_newlines_after_point :
    let a := Text.ofString "@ // \"\n7."
    let b := Text.ofString "5 \"x\ny\"\n\""
    (∀ e ∈ (scan a).errors, e.cause ≠ .unterminatedString) ∧ (scan a).errors ≠ [] ∧
      (scan (a ++ Text.newline :: b)).tokens =
        [⟨.number, Text.ofString "7", 2⟩, ⟨.dot, Text.ofString ".", 2⟩, ⟨.number, Text.ofString "5", 3⟩,
          ⟨.string, Text.ofString "\"x\ny\"", 4⟩] ∧
      (scan (a ++ Text.newline :: b)).errors =
        [⟨.unexpectedCharacter, 1, .nowhere⟩, ⟨.unterminatedString, 5, .nowhere⟩] := by
  intro a b
  have closed : ∀ e ∈ (scan a).errors, e.cause ≠ .unterminatedString := by decide +kernel
  have first : (scan a).tokens = [⟨.number, Text.ofString "7", 2⟩, ⟨.dot, Text.ofString ".", 2⟩] := by decide +kernel
  have second : (scan b).tokens = [⟨.number, Text.ofString "5", 1⟩, ⟨.string, Text.ofString "\"x\ny\"", 2⟩] := by
    decide +kernel
  have strays : (scan a).errors = [⟨.unexpectedCharacter, 1, .nowhere⟩] := by decide +kernel
  have opened : (scan b).errors = [⟨.unterminatedString, 3, .nowhere⟩] := by decide +kernel
  obtain ⟨tokens, errors, -⟩ := scanning_composes_at_newlines a b closed
  rw [first, second] at tokens
  rw [strays, opened] at errors
  refine ⟨closed, ?_, tokens, errors⟩
  rw [strays]
  exact List.cons_ne_nil _ _

/-- A text so many lines further down. -/
def Text.down (k : Nat) (source : Text) : Text := List.replicate k Text.newline ++ source

theorem Scan.down_down (k m : Nat) (s : Scan) : (s.down k).down m = s.down (k + m) := by
  simp [Scan.down, Token.down, Nat.add_assoc]

theorem scan_nil : scan [] = ⟨[], [], 1⟩ := by
  rw [scan, Chunk.all]
  rfl

theorem scan_down (k : Nat) (source : Text) : scan (Text.down k source) = (scan source).down k := by
  induction k with
  | zero => simp [Text.down, Scan.down, Token.down]
  | succ k ih =>
    have lower := scan_append_newline [] (Text.down k source) (by rw [scan_nil])
    rw [scan_nil, ih, Scan.down_down] at lower
    exact lower

/-! Identifiers. -/

theorem Text.ordinary_of_isIdentifier (name : Text.isIdentifier t = true) : Ordinary t := by
  constructor
  · rintro rfl
    exact absurd name (by decide)
  · rintro rfl
    exact absurd name (by decide)

theorem scan_identifiers (source : Text) : Grammar.Identifiers (Text.isIdentifier · = true) (scan source).tokens := by
  intro t among named
  obtain ⟨c, member, kind, text⟩ := Scan.mem_of_token among
  rw [named] at kind
  rw [← text]
  exact Chunk.identifiers_all source c member kind

theorem scan_ordinary (source : Text) : Grammar.Identifiers Ordinary (scan source).tokens := fun t among named =>
  Text.ordinary_of_isIdentifier (scan_identifiers source t among named)

private theorem Text.newlines_identifier (name : Text.isIdentifier t = true) : Text.newlines t = 0 := by
  refine List.count_eq_zero.2 fun within => ?_
  cases t with
  | nil => cases within
  | cons first rest =>
    simp only [Text.isIdentifier, Bool.and_eq_true, List.all_eq_true] at name
    obtain ⟨⟨letter, inside⟩, -⟩ := name
    cases within with
    | head => exact absurd letter (by decide)
    | tail _ later => exact absurd (inside _ later) (by decide)

/-- Chunks for tokens that are written anew on the lines they were on. -/
theorem Scan.exists_chunks {w : Respelling} (still : w.line = id) (new : Text.isIdentifier w.new = true)
    (names : ∀ c ∈ cs, c.kind = .lexeme .identifier → Text.isIdentifier c.text = true)
    (respelled : List.Forall₂ (Token.Respelled w) (ofChunks line cs).tokens ts) :
    ∃ cs', List.Forall₂ (Chunk.Replaces w.old w.new) cs cs' ∧ ofChunks line cs' = { ofChunks line cs with tokens := ts } := by
  induction cs generalizing line ts with
  | nil =>
    cases respelled
    exact ⟨[], .nil, rfl⟩
  | cons c cs ih =>
    obtain ⟨kind, text⟩ := c
    obtain ⟨name, later⟩ := List.forall_mem_cons.1 names
    cases kind with
    | lexeme k =>
      cases respelled with
      | @cons _ t _ ts first rest =>
      obtain ⟨cs', replaced, read⟩ := ih later rest
      obtain ⟨replaces, lines⟩ : Chunk.Replaces w.old w.new ⟨.lexeme k, text⟩ ⟨.lexeme k, t.lexeme⟩ ∧
          Text.newlines t.lexeme = Text.newlines text := by
        obtain same | ⟨rfl, spelled⟩ := first.lexeme
        · rw [same]
          exact ⟨.same, rfl⟩
        · rw [spelled, Respelling.spell]
          split
          · rename_i old
            subst old
            exact ⟨.identifier, by rw [Text.newlines_identifier new, Text.newlines_identifier (name rfl)]⟩
          · exact ⟨.same, rfl⟩
      have token : t = ⟨k, t.lexeme, line + Text.newlines text⟩ := by
        obtain ⟨kind, line, -⟩ := first
        rw [still] at line
        cases t
        cases kind
        cases line
        rfl
      refine ⟨⟨.lexeme k, t.lexeme⟩ :: cs', .cons replaces replaced, ?_⟩
      simp only [ofChunks, lines, read]
      rw [← token]
    | blank | comment | stray | unclosedString =>
      obtain ⟨cs', replaced, read⟩ := ih later respelled
      exact ⟨_ :: cs', .cons .same replaced, by simp only [ofChunks, read]⟩

/-- A text in which some of the identifiers `old` have become `new`. -/
def Text.Renames (old new source source' : Text) : Prop :=
  List.Forall₂ (Chunk.Replaces old new) (Chunk.all source) (Chunk.all source')

/-- A text for tokens that are written anew on the lines they were on. -/
theorem exists_source {w : Respelling} (still : w.line = id) (new : Text.isIdentifier w.new = true)
    (clean : (scan source).errors = []) (respelled : List.Forall₂ (Token.Respelled w) (scan source).tokens ts) :
    ∃ source', Text.Renames w.old w.new source source' ∧ scan source' = { scan source with tokens := ts } := by
  obtain ⟨cs, replaced, read⟩ := Scan.exists_chunks still new (Chunk.identifiers_all source) respelled
  have chunks := Chunk.all_replaced new (Scan.closed_of_clean clean) replaced
  refine ⟨cs.flatMap Chunk.text, ?_, ?_⟩
  · rwa [Text.Renames, chunks]
  · rw [scan, chunks, read, scan]

end Lox
