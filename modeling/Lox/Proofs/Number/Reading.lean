import Lox.Proofs.Number.Rounding
import Lox.Proofs.Token.Lexemes

/-! Reading numerals. A numeral is a run of digits with an optional fraction and an optional exponent, and it reads as a
decimal. Both layouts of a number, the positional and the exponential one, read as the decimal that was laid out; a text
in the positional layout is a number lexeme as well. -/
namespace Lox

/-! Runs of digits. -/

private theorem Text.digitsToNat_append (s t : Text) :
    digitsToNat (s ++ t) = digitsToNat s * 10 ^ t.length + digitsToNat t := by
  have shifted : ∀ (t : Text) n, t.foldl (fun n b => n * 10 + (b - '0'.toUInt8).toNat) n =
      n * 10 ^ t.length + digitsToNat t := by
    intro t
    induction t with
    | nil => simp [digitsToNat]
    | cons b t ih =>
      intro n
      rw [digitsToNat, List.foldl_cons, List.foldl_cons, ih, ih, List.length_cons, pow_succ]
      ring
  rw [digitsToNat, List.foldl_append, shifted]
  rfl

theorem Text.digitsToNat_ofNat (n : Nat) : digitsToNat (Text.ofNat n) = n := by
  induction n using Nat.strongRecOn with
  | ind n ih =>
    have last : ∀ d < 10, digitsToNat (Text.ofNat d) = d := by decide
    by_cases single : n < 10
    · exact last n single
    · have split : Text.ofNat n = Text.ofNat (n / 10) ++ Text.ofNat (n % 10) := by
        rw [Text.ofNat, Nat.toDigits_of_base_le (by decide) (by omega), List.map_append,
          ← Nat.toDigits_of_lt_base (Nat.mod_lt n (by decide))]
        rfl
      have length : (Text.ofNat (n % 10)).length = 1 := by
        rw [Text.ofNat, Nat.toDigits_of_lt_base (Nat.mod_lt n (by decide))]
        rfl
      rw [split, digitsToNat_append, ih _ (by omega), last _ (Nat.mod_lt n (by decide)), length]
      omega

private theorem Text.digitsToNat_zeros (n : Nat) : digitsToNat (Number.zeros n) = 0 := by
  induction n with
  | zero => rfl
  | succ n ih =>
    rw [Number.zeros, List.replicate_succ', ← Number.zeros, digitsToNat_append, ih]
    rfl

private theorem Text.digitsToNat_zeros_append (n : Nat) (t : Text) :
    digitsToNat (Number.zeros n ++ t) = digitsToNat t := by
  rw [digitsToNat_append, digitsToNat_zeros, Nat.zero_mul, Nat.zero_add]

theorem Text.isDigit_zeros (n : Nat) : ∀ b ∈ Number.zeros n, isDigit b = true := by
  intro b member
  rw [List.eq_of_mem_replicate member]
  rfl

/-! The reader. -/

/-- Takes a sign off a text; the flag says whether it was a minus sign. -/
def Text.unsigned (t : Text) : Bool × Text :=
  match t with
  | [] => (false, [])
  | b :: rest => if b = '-'.toUInt8 then (true, rest) else if b = '+'.toUInt8 then (false, rest) else (false, t)

namespace Decimal

/-- The digits of a fraction, if a point comes first, and the text after them. -/
def fraction (t : Text) : Text × Text :=
  match t with
  | [] => ([], [])
  | b :: rest => if b = Number.point then Chunk.run Text.isDigit rest else ([], t)

/-- The exponent in the last part of a numeral, zero if nothing is left. -/
def exponent? (t : Text) : Option Int :=
  match t with
  | [] => some 0
  | mark :: rest =>
    let (negative, digits) := Text.unsigned rest
    if mark = 'E'.toUInt8 ∧ digits ≠ [] ∧ digits.all Text.isDigit then
      some (if negative then -(Text.digitsToNat digits : Int) else Text.digitsToNat digits)
    else none

/-- Reads digits with an optional fraction and an optional exponent. -/
def ofText? (t : Text) : Option Decimal :=
  let (whole, after) := Chunk.run Text.isDigit t
  let (part, rest) := fraction after
  if whole ++ part = [] then none
  else (exponent? rest).map fun e => ⟨Text.digitsToNat (whole ++ part), e - part.length⟩

end Decimal

/-- Reads a numeral with an optional sign as the nearest double. -/
def Number.ofText? (t : Text) : Option Float :=
  let (negative, size) := Text.unsigned t
  (Decimal.ofText? size).map fun d => if negative then -d.toFloat else d.toFloat

namespace Number

/-! The layouts. -/

/-- The digits of a fraction after a point; there is no point without them. -/
def pointed : Text → Text
  | [] => []
  | digits => point :: digits

/-- A text without an exponent: whole digits and the digits of a fraction. -/
structure Plain (t whole part : Text) : Prop where
  text : t = whole ++ pointed part
  nonempty : whole ≠ []
  digits : ∀ b ∈ whole, Text.isDigit b = true
  digits' : ∀ b ∈ part, Text.isDigit b = true

private theorem exponent?_head {rest : Text} (read : Decimal.exponent? rest = some e) :
    ∀ b, rest.head? = some b → Text.isDigit b = false ∧ b ≠ point := by
  cases rest with
  | nil => simp
  | cons mark rest =>
    rintro _ ⟨⟩
    by_cases known : mark = 'E'.toUInt8
    · subst known
      decide
    · simp [Decimal.exponent?, known] at read

private theorem fraction_pointed (digits : ∀ b ∈ part, Text.isDigit b = true)
    (stop : ∀ b, rest.head? = some b → Text.isDigit b = false ∧ b ≠ point) :
    Decimal.fraction (pointed part ++ rest) = (part, rest) := by
  cases part with
  | nil =>
    cases rest with
    | nil => rfl
    | cons b rest => exact if_neg (stop b rfl).2
  | cons d ds =>
    have cut : Decimal.fraction (pointed (d :: ds) ++ rest) = Chunk.run Text.isDigit (d :: ds ++ rest) := rfl
    rw [cut]
    exact Chunk.run_append digits fun b first => (stop b first).1

private theorem pointed_of_ne_nil {part : Text} (nonempty : part ≠ []) : pointed part = point :: part := by
  cases part with
  | nil => exact absurd rfl nonempty
  | cons d ds => rfl

namespace Plain

variable {t whole part : Text} (plain : Plain t whole part)
include plain

private theorem run (stop : ∀ b, rest.head? = some b → Text.isDigit b = false) :
    Chunk.run Text.isDigit (t ++ rest) = (whole, pointed part ++ rest) := by
  rw [plain.text, List.append_assoc]
  apply Chunk.run_append plain.digits
  intro b head
  cases part with
  | nil => exact stop b head
  | cons d ds =>
    -- the point comes first
    cases head
    rfl

/-- A text without an exponent is read with whatever exponent comes after it. -/
theorem ofText? (read : Decimal.exponent? rest = some e) :
    Decimal.ofText? (t ++ rest) = some ⟨Text.digitsToNat (whole ++ part), e - part.length⟩ := by
  have stop := exponent?_head read
  have nonempty : whole ++ part ≠ [] := List.append_ne_nil_of_left_ne_nil plain.nonempty part
  rw [Decimal.ofText?, plain.run fun b first => (stop b first).1]
  simp only [fraction_pointed plain.digits' stop, if_neg nonempty, read, Option.map_some]

theorem inside : ∀ b ∈ t, Text.isDigit b = true ∨ b = point := by
  intro b member
  rw [plain.text] at member
  rcases List.mem_append.1 member with whole | later
  · exact .inl (plain.digits b whole)
  · cases part with
    | nil => cases later
    | cons d ds =>
      rcases List.mem_cons.1 later with rfl | later
      · exact .inr rfl
      · exact .inl (plain.digits' b later)

private theorem spells : Chunk.Spells (.lexeme .number) t := by
  obtain ⟨d, ds, rfl⟩ := List.exists_cons_of_ne_nil plain.nonempty
  obtain ⟨digit, digits⟩ := List.forall_mem_cons.1 plain.digits
  rw [plain.text]
  cases part with
  | nil =>
    rw [pointed, List.append_nil]
    exact .whole digit digits
  | cons e es =>
    obtain ⟨digit', digits'⟩ := List.forall_mem_cons.1 plain.digits'
    exact .fraction digit digits digit' digits'

/-- The lexeme is read with all its digits. -/
theorem ofLexeme : ofLexeme t = Decimal.toFloat ⟨Text.digitsToNat (whole ++ part), -(part.length : Int)⟩ := by
  have first : Chunk.run Text.isDigit (t ++ []) = (whole, pointed part ++ []) := plain.run (by simp)
  rw [List.append_nil, List.append_nil] at first
  have digits : t.takeWhile Text.isDigit = whole := congrArg Prod.fst first
  have rest : t.dropWhile Text.isDigit = pointed part := congrArg Prod.snd first
  have dropped : (pointed part).drop 1 = part := by cases part <;> rfl
  rw [Number.ofLexeme, digits, rest, dropped]

/-- It is one token of a program. -/
theorem scan : scan t = ⟨[⟨.number, t, 1⟩], [], 1⟩ := by
  have lines : Text.newlines t = 0 := by
    rw [Text.newlines, List.count_eq_zero]
    intro member
    exact absurd (plain.inside _ member) (by decide)
  have alone : Chunk.all (t ++ []) = ⟨.lexeme .number, t⟩ :: Chunk.all [] := Chunk.all_lexeme plain.spells (by simp)
  rw [List.append_nil] at alone
  rw [Lox.scan, alone, Chunk.all, Scan.ofChunks, lines]
  rfl

end Plain

/-- The positional layout with the point after `k` digits says the digits as a fraction, times `10 ^ k`. -/
theorem plain_positional {digits : Text} (nonempty : digits ≠ []) (all : ∀ b ∈ digits, Text.isDigit b = true)
    (k : Int) : ∃ whole part, Plain (positional digits k) whole part ∧
      (⟨Text.digitsToNat (whole ++ part), -(part.length : Int)⟩ : Decimal).value =
        (⟨Text.digitsToNat digits, k - digits.length⟩ : Decimal).value := by
  cases k with
  | ofNat k =>
    rw [positional]
    by_cases first : k = 0
    · subst first
      refine ⟨zeros 1, digits, ⟨?_, List.cons_ne_nil _ _, Text.isDigit_zeros 1, all⟩, ?_⟩
      · rw [if_pos rfl, pointed_of_ne_nil nonempty]
        rfl
      · rw [Text.digitsToNat_zeros_append, Int.ofNat_eq_natCast, Nat.cast_zero, zero_sub]
    · rw [if_neg first]
      by_cases short : digits.length ≤ k
      · rw [if_pos short]
        refine ⟨digits ++ zeros (k - digits.length), [], ⟨(List.append_nil _).symm, ?_, ?_, by simp⟩, ?_⟩
        · exact List.append_ne_nil_of_left_ne_nil nonempty _
        · exact List.forall_mem_append.2 ⟨all, Text.isDigit_zeros _⟩
        · rw [List.append_nil, Text.digitsToNat_append, Text.digitsToNat_zeros, zeros, List.length_replicate]
          have shifted := Decimal.value_shift (Text.digitsToNat digits) (k - digits.length) 0
          rw [zero_add, Nat.cast_sub short] at shifted
          exact shifted
      · rw [if_neg short]
        have back : digits.drop k ≠ [] := by
          rw [ne_eq, List.drop_eq_nil_iff]
          exact short
        have front : digits.take k ≠ [] := by
          rw [ne_eq, List.take_eq_nil_iff]
          exact fun empty => empty.elim first nonempty
        refine ⟨digits.take k, digits.drop k, ⟨?_, front, ?_, ?_⟩, ?_⟩
        · rw [pointed_of_ne_nil back]
        · exact fun b member => all b (List.mem_of_mem_take member)
        · exact fun b member => all b (List.mem_of_mem_drop member)
        · rw [List.take_append_drop, List.length_drop, Nat.cast_sub (by omega), neg_sub]
          rfl
  | negSucc k =>
    refine ⟨zeros 1, zeros (k + 1) ++ digits, ⟨?_, List.cons_ne_nil _ _, Text.isDigit_zeros 1, ?_⟩, ?_⟩
    · rw [pointed_of_ne_nil (List.append_ne_nil_of_right_ne_nil _ nonempty)]
      rfl
    · exact List.forall_mem_append.2 ⟨Text.isDigit_zeros _, all⟩
    · have places : -((zeros (k + 1) ++ digits).length : Int) = Int.negSucc k - digits.length := by
        rw [List.length_append, zeros, List.length_replicate]
        omega
      rw [Text.digitsToNat_zeros_append, Text.digitsToNat_zeros_append, places]

/-- The last part of the exponential layout. -/
def exponentText (e : Int) : Text :=
  'E'.toUInt8 :: (if e < 0 then '-'.toUInt8 else '+'.toUInt8) ::
    (zeros (2 - (Text.ofNat e.natAbs).length) ++ Text.ofNat e.natAbs)

private theorem exponent?_mark {negative : Bool} {t digits : Text} (cut : Text.unsigned t = (negative, digits))
    (nonempty : digits ≠ []) (all : ∀ b ∈ digits, Text.isDigit b = true) :
    Decimal.exponent? ('E'.toUInt8 :: t) =
      some (if negative then -(Text.digitsToNat digits : Int) else Text.digitsToNat digits) := by
  rw [Decimal.exponent?, cut]
  exact if_pos ⟨rfl, nonempty, List.all_eq_true.2 all⟩

theorem exponent?_exponentText (e : Int) : Decimal.exponent? (exponentText e) = some e := by
  have cut : ∀ t, Text.unsigned ((if e < 0 then '-'.toUInt8 else '+'.toUInt8) :: t) = (decide (e < 0), t) := by
    intro t
    by_cases negative : e < 0
    · rw [if_pos negative, decide_eq_true negative]
      rfl
    · rw [if_neg negative, decide_eq_false negative]
      rfl
  have nonempty := List.append_ne_nil_of_right_ne_nil (zeros (2 - (Text.ofNat e.natAbs).length)) (Text.ofNat_ne_nil e.natAbs)
  have all := List.forall_mem_append.2
    ⟨Text.isDigit_zeros (2 - (Text.ofNat e.natAbs).length), Text.isDigit_ofNat e.natAbs⟩
  rw [exponentText, exponent?_mark (cut _) nonempty all, Text.digitsToNat_zeros_append, Text.digitsToNat_ofNat]
  simp only [decide_eq_true_eq, Option.some.injEq]
  split <;> omega

/-- The exponential layout is one digit, the others as a fraction and the exponent. -/
theorem plain_exponential (digit : Text.isDigit d = true) (digits : ∀ b ∈ ds, Text.isDigit b = true) (e : Int) :
    exponential (d :: ds) e = (d :: pointed ds) ++ exponentText e ∧ Plain (d :: pointed ds) [d] ds := by
  refine ⟨?_, rfl, List.cons_ne_nil _ _, by simpa using digit, digits⟩
  cases ds <;> exact List.append_assoc ..

end Number
end Lox
