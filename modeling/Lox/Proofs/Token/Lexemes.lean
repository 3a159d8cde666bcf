import Lox.Proofs.Token.LongestMatch
import Lox.Proofs.Token.Scan

/-! Lexemes carry the whole token. What a token is can be told from its own bytes, whatever stood around them: no chunk
goes on over a blank that comes after a lexeme, so lexemes with blanks between them are read again one by one. -/
namespace Lox

namespace Chunk

def space : UInt8 := ' '.toUInt8

private theorem space_notMem_mark (listed : (t, k) ∈ TokenKind.marks) : space ∉ t := by
  have entries : ∀ entry ∈ TokenKind.marks, space ∉ entry.1 := by decide +kernel
  exact entries _ listed

private theorem space_notMem_keyword (listed : (t, k) ∈ TokenKind.keywords) : space ∉ t := by
  have entries : ∀ entry ∈ TokenKind.keywords, space ∉ entry.1 := by decide +kernel
  exact entries _ listed

private theorem space_notMem {p : UInt8 → Bool} {t : Text} (other : p space = false) (inside : ∀ b ∈ t, p b = true) :
    space ∉ t := by
  intro among
  have passes := inside space among
  rw [other] at passes
  cases passes

/-- A quote that is not closed before a blank is not a lexeme. -/
theorem quote_not_lexeme (inside : ∀ b ∈ body, b ≠ quote) : ¬ Spells (.lexeme k) (quote :: body) := by
  intro lexeme
  cases lexeme.kind_unique (.unclosedString inside)

/-- Nothing goes on over a blank that comes after a lexeme. -/
theorem Spells.ends_at_space (lexeme : Spells (.lexeme k) t) : ¬ Spells k' (t ++ space :: u) := by
  intro longer
  obtain ⟨first, body, rfl, -⟩ := lexeme.reads
  generalize whole : first :: body ++ space :: u = w at longer
  have among : space ∈ w := by
    rw [← whole]
    exact List.mem_append_right _ List.mem_cons_self
  cases longer with
  | blank | stray =>
    have size := congrArg List.length whole
    simp at size
  | @comment rest inside =>
    rw [List.cons_append] at whole
    obtain ⟨rfl, more⟩ := List.cons.inj whole
    cases body with
    | nil =>
      obtain ⟨same, -⟩ := List.cons.inj more
      exact absurd same (by decide)
    | cons b body =>
      -- two slashes are a comment already without the blank
      rw [List.cons_append] at more
      obtain ⟨rfl, rfl⟩ := List.cons.inj more
      have free : ∀ b ∈ body, b ≠ Text.newline := fun b member => inside b (List.mem_append_left _ member)
      cases lexeme.kind_unique (.comment free)
  | mark listed => exact space_notMem_mark listed among
  | @string rest inside =>
    rw [List.cons_append] at whole
    obtain ⟨rfl, more⟩ := List.cons.inj whole
    rcases List.append_eq_append_iff.1 more with ⟨between, rfl, -⟩ | ⟨between, -, close⟩
    · exact quote_not_lexeme (fun b member => inside b (List.mem_append_left _ member)) lexeme
    · -- the quote that closes would have to be the blank
      have last : space ∈ [quote] := by
        rw [close]
        exact List.mem_append_right _ List.mem_cons_self
      exact absurd (List.mem_singleton.1 last) (by decide)
  | whole digit digits => exact space_notMem (by decide) (List.forall_mem_cons.2 ⟨digit, digits⟩) among
  | fraction digit digits digit' digits' =>
    rcases List.mem_cons.1 among with rfl | among
    · exact absurd digit (by decide)
    rcases List.mem_append.1 among with among | among
    · exact space_notMem (by decide) digits among
    rcases List.mem_cons.1 among with same | among
    · exact absurd same (by decide)
    · exact space_notMem (by decide) (List.forall_mem_cons.2 ⟨digit', digits'⟩) among
  | keyword listed => exact space_notMem_keyword listed among
  | identifier letter inside =>
    rcases List.mem_cons.1 among with rfl | among
    · exact absurd letter (by decide)
    · exact space_notMem (by decide) inside among
  | @unclosedString rest inside =>
    rw [List.cons_append] at whole
    obtain ⟨rfl, rfl⟩ := List.cons.inj whole
    exact quote_not_lexeme (fun b member => inside b (List.mem_append_left _ member)) lexeme

/-- A lexeme is the longest chunk where nothing or a blank comes after it. -/
theorem Spells.longest (lexeme : Spells (.lexeme k) t) (stop : ∀ b, rest.head? = some b → b = space) :
    Longest (t ++ rest) ⟨.lexeme k, t⟩ rest := by
  refine ⟨rfl, lexeme, ?_⟩
  intro longer more _ starts spells
  apply Classical.byContradiction
  intro beyond
  rcases List.append_eq_append_iff.1 starts with ⟨extra, rfl, split⟩ | ⟨extra, rfl, -⟩
  · cases extra with
    | nil => exact beyond (by simp)
    | cons b extra =>
      obtain rfl := stop b (by rw [split]; rfl)
      exact lexeme.ends_at_space spells
  · exact beyond (by simp)

theorem all_lexeme (lexeme : Spells (.lexeme k) t) (stop : ∀ b, List.head? rest = some b → b = space) :
    all (t ++ rest) = ⟨.lexeme k, t⟩ :: all rest := by
  symm
  rw [← cuts_iff]
  exact .more (lexeme.longest stop) (cuts_iff.2 rfl)

private theorem all_space (rest : Text) : all (space :: rest) = ⟨.blank, [space]⟩ :: all rest := by
  rw [all_cons]
  rfl

private theorem all_spells (t : Text) : ∀ c ∈ all t, Spells c.kind c.text := by
  induction t using all.induct with
  | case1 => simp [all]
  | case2 first rest ih =>
    rw [all_cons]
    exact List.forall_mem_cons.2 ⟨next_spells first rest, ih⟩

end Chunk

/-- Every token is spelled as its kind demands. -/
theorem scan_spells (source : Text) : ∀ t ∈ (scan source).tokens, Chunk.Spells (.lexeme t.kind) t.lexeme := by
  intro t among
  obtain ⟨c, member, kind, text⟩ := Scan.mem_of_token among
  rw [← kind, ← text]
  exact Chunk.all_spells source c member

/-- What a token is, apart from its line. -/
def Token.content (t : Token) : TokenKind × Text × Option Literal := (t.kind, t.lexeme, t.literal?)

/-- Lexemes with single blanks between them. -/
def Token.spaced (ts : List Token) : Text := (Text.ofString " ").intercalate (ts.map (·.lexeme))

open Chunk in
/-- The first lexeme is read alone, and after the blank behind it the others are. -/
theorem Scan.ofChunks_spaced (line : Nat) (ts : List Token) (spelled : ∀ t ∈ ts, Spells (.lexeme t.kind) t.lexeme) :
    (ofChunks line (all (Token.spaced ts))).errors = [] ∧
      (ofChunks line (all (Token.spaced ts))).tokens.map Token.content = ts.map Token.content := by
  induction ts generalizing line with
  | nil => simp [Token.spaced, all, ofChunks]
  | cons t ts ih =>
    obtain ⟨first, others⟩ := List.forall_mem_cons.1 spelled
    cases ts with
    | nil =>
      have alone : Token.spaced [t] = t.lexeme ++ [] := by simp [Token.spaced]
      rw [alone, all_lexeme first (by simp), all]
      exact ⟨rfl, rfl⟩
    | cons next ts =>
      have apart : Token.spaced (t :: next :: ts) = t.lexeme ++ space :: Token.spaced (next :: ts) := by
        rw [Token.spaced, List.map_cons, List.map_cons, List.intercalate_cons_cons, ← List.map_cons]
        exact List.append_assoc ..
      have stop : ∀ b, (space :: Token.spaced (next :: ts)).head? = some b → b = space := by
        rintro b ⟨⟩
        rfl
      obtain ⟨clean, same⟩ := ih (line + Text.newlines t.lexeme + Text.newlines [space]) others
      rw [apart, all_lexeme first stop, all_space]
      refine ⟨clean, ?_⟩
      simp only [ofChunks, List.map_cons]
      rw [same]
      rfl

/-- Lexemes carry the whole token. Of any text, with or without errors: its lexemes with single blanks between them are
read without errors as tokens of the same kinds with the same lexemes and the same literals, in the same order. -/
theorem lexemes_carry_the_token (source : Text) :
    let spaced := scan ((Text.ofString " ").intercalate ((scan source).tokens.map (·.lexeme)))
    spaced.errors = [] ∧
      spaced.tokens.map (fun t => (t.kind, t.lexeme, t.literal?)) =
        (scan source).tokens.map (fun t => (t.kind, t.lexeme, t.literal?)) :=
  Scan.ofChunks_spaced 1 (scan source).tokens (scan_spells source)

end Lox
