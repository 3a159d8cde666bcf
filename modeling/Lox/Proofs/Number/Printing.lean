import Lox.Proofs.Number.Reading
import Lox.Proofs.Number.Shortest

/-! Printing a number loses nothing. The text of a finite number reads as that number with its sign, so different numbers
have different texts. The exponent is written outside of the range from `1e-4` to `1e15`; inside of it, the text of a
number without a sign is a number literal of the language that stands for that number. -/
namespace Lox

namespace Decimal

open Double

/-- The power of ten that the first digit counts. -/
def scale (d : Decimal) : Int := d.exponent + (Text.ofNat d.coefficient).length - 1

private theorem value_bounds {d : Decimal} (positive : 0 < d.coefficient) :
    (10 : ℚ) ^ d.scale ≤ d.value ∧ d.value < 10 ^ (d.scale + 1) := by
  obtain ⟨lower, upper⟩ := Text.length_ofNat_spec positive
  have grid := ten_zpow_pos d.exponent
  have first : (10 : ℚ) ^ d.scale = 10 ^ ((Text.ofNat d.coefficient).length - 1 : Int) * 10 ^ d.exponent := by
    rw [← zpow_add₀ (by norm_num), scale]
    congr 1
    ring
  have next : (10 : ℚ) ^ (d.scale + 1) = 10 ^ ((Text.ofNat d.coefficient).length : Int) * 10 ^ d.exponent := by
    rw [← zpow_add₀ (by norm_num), scale]
    congr 1
    ring
  have below : (d.coefficient : ℚ) < 10 ^ ((Text.ofNat d.coefficient).length : Int) := by linarith
  rw [first, next, value]
  exact ⟨by gcongr, by gcongr⟩

private theorem scale_lt_iff {d : Decimal} (positive : 0 < d.coefficient) : d.scale < k ↔ d.value < 10 ^ k := by
  obtain ⟨lower, upper⟩ := value_bounds positive
  constructor
  · intro less
    exact upper.trans_le (zpow_le_zpow_right₀ (by norm_num) less)
  · intro less
    exact (zpow_lt_zpow_iff_right₀ (by norm_num)).1 (lower.trans_lt less)

private theorem toFloat_spec (d : Decimal) : sign d.toFloat = .positive ∧ Nearest d.value (place d.toFloat) := by
  have rounded := d.nearest_toFloat
  have small : d.toFloat.toBits.toNat < 2 ^ 63 := rounded.bounded.trans_lt (by decide)
  have bits : d.toFloat.toBits.toNat = signBit .positive + d.toFloat.toBits.toNat := (Nat.zero_add _).symm
  obtain ⟨sign, place⟩ := eq_of_toNat_toBits bits small
  exact ⟨sign, by rwa [place]⟩

/-- A power of ten that is the shortest decimal of its double is a border between scales: the doubles below it are those
whose shortest decimal is below it. -/
theorem place_lt_iff {x : Float} (positive : sign x = .positive) (nonzero : 0 < place x) (finite : place x < infinite)
    (exact : shortest (toFloat ⟨1, k⟩) = ⟨1, k⟩) : place x < place (toFloat ⟨1, k⟩) ↔ (shortest x).scale < k := by
  obtain ⟨reads, coefficient, -⟩ := shortest_spec positive nonzero finite
  obtain ⟨positive', border⟩ := toFloat_spec ⟨1, k⟩
  have rounded := (toFloat_eq_iff positive _).1 reads
  have power : value ⟨1, k⟩ = 10 ^ k := by rw [value, Nat.cast_one, one_mul]
  rw [scale_lt_iff coefficient, ← power]
  constructor
  · intro less
    apply lt_of_not_ge
    intro above
    exact absurd (border.mono rounded above) less.not_ge
  · intro less
    apply lt_of_le_of_ne (rounded.mono border less.le)
    intro same
    -- the double of the power of ten is itself printed as that power, not as something below it
    have equal : x = toFloat ⟨1, k⟩ := eq_of_place (positive.trans positive'.symm) same
    rw [equal, exact] at less
    exact lt_irrefl _ less

end Decimal

namespace Number

open Double

/-! The sign. -/

private theorem isNegative_iff (x : Float) : isNegative x = true ↔ sign x = .negative := by
  rw [sign]
  cases isNegative x <;> simp

private theorem isNegative_eq_false_iff (x : Float) : isNegative x = false ↔ sign x = .positive := by
  rw [sign]
  cases isNegative x <;> simp

private theorem abs_of_positive (number : place x ≤ infinite) (positive : sign x = .positive) : x.abs = x := by
  obtain ⟨signs, places⟩ := abs_spec number
  exact eq_of_place (signs.trans positive.symm) places

private theorem neg_of_negative (number : place x ≤ infinite) (negative : sign x = .negative) : -x = x.abs := by
  obtain ⟨signs, places⟩ := abs_spec number
  obtain ⟨signs', places'⟩ := neg_spec number
  rw [negative] at signs'
  exact eq_of_place (signs'.trans signs.symm) (places'.trans places.symm)

private theorem neg_abs_of_negative (number : place x ≤ infinite) (negative : sign x = .negative) : -x.abs = x := by
  obtain ⟨signs, places⟩ := abs_spec number
  obtain ⟨signs', places'⟩ := neg_spec (x := x.abs) (places ▸ number)
  rw [signs] at signs'
  exact eq_of_place (signs'.trans negative.symm) (places'.trans places)

private theorem isNaN_eq_false (number : place x ≤ infinite) : x.isNaN = false := by
  rw [← Bool.not_eq_true, isNaN_iff]
  exact number.not_gt

/-- The text of a number without its sign. -/
theorem text_of_positive (number : place x ≤ infinite) (positive : sign x = .positive) :
    text x = if isZero x then ['0'.toUInt8] else if x.isInf then Text.ofString "Infinity" else magnitudeText x := by
  have plus := (isNegative_eq_false_iff x).2 positive
  rw [text, isNaN_eq_false number, plus]
  rfl

/-- A minus sign is written in front of the text of the absolute value. -/
theorem text_of_negative (number : place x ≤ infinite) (negative : sign x = .negative) :
    text x = '-'.toUInt8 :: text x.abs := by
  obtain ⟨signs, places⟩ := abs_spec number
  have minus := (isNegative_iff x).2 negative
  have zero : isZero x = isZero x.abs := by rw [Bool.eq_iff_iff, isZero_iff, isZero_iff, places]
  have infinity : x.isInf = x.abs.isInf := by rw [Bool.eq_iff_iff, isInf_iff, isInf_iff, places]
  rw [text_of_positive (places ▸ number) signs, text, isNaN_eq_false number, minus, zero, infinity,
    neg_of_negative number negative]
  rfl

/-! The text of a finite number without its sign. -/

/-- The scales that are written without an exponent. -/
def Positional (e : Int) : Prop := layout.leastPositional ≤ e ∧ e < layout.firstExponential

private theorem magnitudeText_of_positional (inside : Positional (Decimal.shortest x).scale) :
    magnitudeText x = positional (Text.ofNat (Decimal.shortest x).coefficient) ((Decimal.shortest x).scale + 1) := by
  obtain ⟨least, first⟩ := inside
  exact if_neg fun outside => outside.elim least.not_gt first.not_ge

private theorem magnitudeText_of_not_positional (outside : ¬ Positional (Decimal.shortest x).scale) :
    magnitudeText x = exponential (Text.ofNat (Decimal.shortest x).coefficient) (Decimal.shortest x).scale := by
  rw [Positional, Classical.not_and_iff_not_or_not, not_le, not_lt] at outside
  exact if_pos outside

section

variable {x : Float} (positive : sign x = .positive) (finite : place x < infinite)
include positive finite

private theorem text_of_finite (nonzero : 0 < place x) : text x = magnitudeText x := by
  have zero : isZero x = false := by
    rw [← Bool.not_eq_true, isZero_iff]
    exact nonzero.ne'
  have infinity : x.isInf = false := by
    rw [← Bool.not_eq_true, isInf_iff]
    exact finite.ne
  rw [text_of_positive finite.le positive, zero, infinity]
  rfl

/-- A number in the range is written as whole digits and a fraction. -/
theorem plain_text (inside : place x = 0 ∨ (0 < place x ∧ Positional (Decimal.shortest x).scale)) :
    ∃ whole part, Plain (text x) whole part ∧
      Decimal.toFloat ⟨Text.digitsToNat (whole ++ part), -(part.length : Int)⟩ = x := by
  rcases inside with zero | ⟨nonzero, inside⟩
  · refine ⟨zeros 1, [], ⟨?_, List.cons_ne_nil _ _, Text.isDigit_zeros 1, by simp⟩, ?_⟩
    · rw [text_of_positive finite.le positive, (isZero_iff x).2 zero]
      rfl
    · rw [Decimal.toFloat_eq_iff positive, zero]
      apply nearest_zero
      have coefficient : Text.digitsToNat (zeros 1 ++ []) = 0 := rfl
      rw [Decimal.value, coefficient, Nat.cast_zero, zero_mul, mul_zero]
      exact value_pos Nat.one_pos
  · obtain ⟨reads, -, -⟩ := Decimal.shortest_spec positive nonzero finite
    rw [text_of_finite positive finite nonzero, magnitudeText_of_positional inside]
    obtain ⟨whole, part, plain, value⟩ := plain_positional (Text.ofNat_ne_nil (Decimal.shortest x).coefficient)
      (Text.isDigit_ofNat _) ((Decimal.shortest x).scale + 1)
    have exponent : (Decimal.shortest x).scale + 1 - (Text.ofNat (Decimal.shortest x).coefficient).length =
        (Decimal.shortest x).exponent := by
      rw [Decimal.scale]
      ring
    rw [Text.digitsToNat_ofNat, exponent] at value
    exact ⟨whole, part, plain, (Decimal.toFloat_eq_of_value_eq value).trans reads⟩

/-- A number beyond the range is written with an exponent. -/
theorem marked_text (nonzero : 0 < place x) (outside : ¬ Positional (Decimal.shortest x).scale) :
    ∃ front whole part e, text x = front ++ exponentText e ∧ Plain front whole part ∧
      Decimal.toFloat ⟨Text.digitsToNat (whole ++ part), e - part.length⟩ = x := by
  obtain ⟨reads, -, -⟩ := Decimal.shortest_spec positive nonzero finite
  obtain ⟨d, ds, split⟩ := List.exists_cons_of_ne_nil (Text.ofNat_ne_nil (Decimal.shortest x).coefficient)
  have digits := Text.isDigit_ofNat (Decimal.shortest x).coefficient
  rw [split] at digits
  obtain ⟨digit, digits⟩ := List.forall_mem_cons.1 digits
  obtain ⟨layout, plain⟩ := plain_exponential digit digits (Decimal.shortest x).scale
  have coefficient : Text.digitsToNat ([d] ++ ds) = (Decimal.shortest x).coefficient := by
    rw [List.singleton_append, ← split, Text.digitsToNat_ofNat]
  have exponent : (Decimal.shortest x).scale - ds.length = (Decimal.shortest x).exponent := by
    rw [Decimal.scale, split, List.length_cons]
    push_cast
    ring
  refine ⟨_, _, _, (Decimal.shortest x).scale, ?_, plain, ?_⟩
  · rw [text_of_finite positive finite nonzero, magnitudeText_of_not_positional outside, split]
    exact layout
  · rw [coefficient, exponent]
    exact reads

private theorem exists_ofText?_text : ∃ d, Decimal.ofText? (text x) = some d ∧ d.toFloat = x := by
  by_cases inside : place x = 0 ∨ (0 < place x ∧ Positional (Decimal.shortest x).scale)
  · obtain ⟨whole, part, plain, reads⟩ := plain_text positive finite inside
    have decimal : Decimal.ofText? (text x ++ []) = _ := plain.ofText? rfl
    rw [List.append_nil, zero_sub] at decimal
    exact ⟨_, decimal, reads⟩
  · have nonzero : 0 < place x := Nat.pos_of_ne_zero fun zero => inside (.inl zero)
    obtain ⟨front, whole, part, e, split, plain, reads⟩ :=
      marked_text positive finite nonzero fun positional => inside (.inr ⟨nonzero, positional⟩)
    rw [split]
    exact ⟨_, plain.ofText? (exponent?_exponentText e), reads⟩

private theorem mem_text_iff : 'E'.toUInt8 ∈ text x ↔ 0 < place x ∧ ¬ Positional (Decimal.shortest x).scale := by
  by_cases inside : place x = 0 ∨ (0 < place x ∧ Positional (Decimal.shortest x).scale)
  · obtain ⟨whole, part, plain, -⟩ := plain_text positive finite inside
    constructor
    · intro member
      exact absurd (plain.inside _ member) (by decide)
    · rintro ⟨nonzero, outside⟩
      exact absurd inside fun either => either.elim nonzero.ne' fun positional => outside positional.2
  · have nonzero : 0 < place x := Nat.pos_of_ne_zero fun zero => inside (.inl zero)
    have outside : ¬ Positional (Decimal.shortest x).scale := fun positional => inside (.inr ⟨nonzero, positional⟩)
    obtain ⟨front, whole, part, e, split, -, -⟩ := marked_text positive finite nonzero outside
    rw [split]
    exact iff_of_true (List.mem_append_right _ List.mem_cons_self) ⟨nonzero, outside⟩

/-- The scales without an exponent are those of the numbers from `1e-4` up to `1e15`. -/
theorem positional_iff (nonzero : 0 < place x) :
    Positional (Decimal.shortest x).scale ↔ place (1e-4 : Float) ≤ place x ∧ place x < place (1e15 : Float) := by
  have least : Decimal.shortest (Decimal.toFloat ⟨1, -4⟩) = ⟨1, -4⟩ := by decide +kernel
  have first : Decimal.shortest (Decimal.toFloat ⟨1, 15⟩) = ⟨1, 15⟩ := by decide +kernel
  have below := Decimal.place_lt_iff positive nonzero finite least
  have above := Decimal.place_lt_iff positive nonzero finite first
  have same : (1e-4 : Float) = Decimal.toFloat ⟨1, -4⟩ := rfl
  have same' : (1e15 : Float) = Decimal.toFloat ⟨1, 15⟩ := rfl
  rw [same, same', above, ← not_lt, below, not_lt]
  rfl

end

/-! Reading back. -/

private theorem unsigned_of_ofText? (read : Decimal.ofText? t = some d) : Text.unsigned t = (false, t) := by
  cases t with
  | nil => rfl
  | cons b rest =>
    have minus : b ≠ '-'.toUInt8 := by
      rintro rfl
      cases read
    have plus : b ≠ '+'.toUInt8 := by
      rintro rfl
      cases read
    simp only [Text.unsigned, if_neg minus, if_neg plus]

private theorem ofText?_text_of_finite (finite : place x < infinite) : ofText? (text x) = some x := by
  obtain ⟨signs, places⟩ := abs_spec finite.le
  obtain ⟨d, read, exact⟩ := exists_ofText?_text signs (places ▸ finite)
  cases known : sign x with
  | positive =>
    rw [abs_of_positive finite.le known] at read exact
    rw [ofText?, unsigned_of_ofText? read]
    simp only [read, Option.map_some, exact]
    rfl
  | negative =>
    have cut : Text.unsigned ('-'.toUInt8 :: text x.abs) = (true, text x.abs) := rfl
    rw [text_of_negative finite.le known, ofText?, cut]
    simp only [read, Option.map_some, exact, if_true, neg_abs_of_negative finite.le known]

example : ofText? (Text.ofString "-12.50E-07") = some (-1.25e-6) ∧ ofText? (Text.ofString "1.5E") = none ∧
    ofText? (Text.ofString "--1") = none := by decide +kernel

/-- The doubles that are not finite. -/
def special : List Float := [Float.nan, Float.inf, -Float.inf]

private theorem mem_special (beyond : infinite ≤ place x) : x ∈ special := by
  have infinity : sign Float.inf = .positive ∧ place Float.inf = infinite := ⟨rfl, by decide +kernel⟩
  obtain ⟨signs, places⟩ := neg_spec (x := Float.inf) infinity.2.le
  rcases beyond.eq_or_lt with same | more
  · cases known : sign x with
    | positive =>
      have equal : x = Float.inf := eq_of_place (known.trans infinity.1.symm) (same.symm.trans infinity.2.symm)
      simp [special, equal]
    | negative =>
      rw [infinity.1] at signs
      rw [infinity.2] at places
      have equal : x = -Float.inf := eq_of_place (known.trans signs.symm) (same.symm.trans places.symm)
      simp [special, equal]
  · simp [special, eq_nan x more]

/-- A text is the text of one number only: a finite number is read back, and the texts of the others cannot be read. -/
theorem text_injective : Function.Injective text := by
  intro x y same
  have unread : ∀ x ∈ special, ofText? (text x) = none := by decide +kernel
  have apart : ∀ x ∈ special, ∀ y ∈ special, text x = text y → x = y := by decide +kernel
  rcases Nat.lt_or_ge (place x) infinite with finite | beyond
  · have read := ofText?_text_of_finite finite
    rw [same] at read
    rcases Nat.lt_or_ge (place y) infinite with finite' | beyond'
    · rw [ofText?_text_of_finite finite'] at read
      exact (Option.some.inj read).symm
    · rw [unread y (mem_special beyond')] at read
      cases read
  · have read := unread x (mem_special beyond)
    rw [same] at read
    rcases Nat.lt_or_ge (place y) infinite with finite' | beyond'
    · rw [ofText?_text_of_finite finite'] at read
      cases read
    · exact apart x (mem_special beyond) y (mem_special beyond') same

/-! The borders of the range. -/

private theorem border_spec (d : Decimal) : sign d.toFloat = .positive ∧ place d.toFloat ≤ infinite :=
  ⟨d.toFloat_spec.1, d.toFloat_spec.2.bounded⟩

private theorem mem_text_iff_abs (finite : place x < infinite) :
    'E'.toUInt8 ∈ text x ↔ (1e15 : Float) ≤ x.abs ∨ ((0 : Float) < x.abs ∧ x.abs < 1e-4) := by
  obtain ⟨signs, places⟩ := abs_spec finite.le
  have number : place x.abs ≤ infinite := places ▸ finite.le
  have unsigned : 'E'.toUInt8 ∈ text x ↔ 'E'.toUInt8 ∈ text x.abs := by
    cases known : sign x with
    | positive => rw [abs_of_positive finite.le known]
    | negative =>
      rw [text_of_negative finite.le known, List.mem_cons]
      exact or_iff_right (by decide)
  obtain ⟨least, least'⟩ := border_spec ⟨1, -4⟩
  obtain ⟨first, first'⟩ := border_spec ⟨1, 15⟩
  have large : (1e15 : Float) ≤ x.abs ↔ place (1e15 : Float) ≤ place x.abs := le_iff first signs first' number
  have small : x.abs < (1e-4 : Float) ↔ place x.abs < place (1e-4 : Float) := lt_iff signs least number least'
  have nonzero : (0 : Float) < x.abs ↔ 0 < place x.abs := by
    rw [lt_iff zero_spec.1 signs (zero_spec.2 ▸ Nat.zero_le _) number, zero_spec.2]
  have reached : 0 < place (1e15 : Float) := by decide +kernel
  rw [unsigned, mem_text_iff signs (places ▸ finite), large, small, nonzero]
  constructor
  · rintro ⟨nonzero, outside⟩
    rw [positional_iff signs (places ▸ finite) nonzero] at outside
    omega
  · intro outside
    have nonzero : 0 < place x.abs := by omega
    refine ⟨nonzero, ?_⟩
    rw [positional_iff signs (places ▸ finite) nonzero]
    omega

/-- What is at least as large as a number is a number. -/
theorem place_le_of_le (le : (1e-4 : Float) ≤ x) : place x ≤ infinite := by
  apply Nat.le_of_not_lt
  intro beyond
  rw [eq_nan x beyond] at le
  exact absurd le (by decide +kernel)

private theorem exists_plain_text (positive : sign x = .positive)
    (range : isZero x = true ∨ ((1e-4 : Float) ≤ x ∧ x < (1e15 : Float))) : ∃ whole part, Plain (text x) whole part ∧
      Decimal.toFloat ⟨Text.digitsToNat (whole ++ part), -(part.length : Int)⟩ = x := by
  rcases range with zero | ⟨lower, upper⟩
  · rw [isZero_iff] at zero
    exact plain_text positive (zero ▸ by decide) (.inl zero)
  · have number := place_le_of_le lower
    obtain ⟨least, least'⟩ := border_spec ⟨1, -4⟩
    obtain ⟨first, first'⟩ := border_spec ⟨1, 15⟩
    have above := (le_iff least positive least' number).1 lower
    have below := (lt_iff positive first number first').1 upper
    have finite : place x < infinite := below.trans_le first'
    have nonzero : 0 < place x := lt_of_lt_of_le (by decide +kernel) above
    exact plain_text positive finite (.inr ⟨nonzero, (positional_iff positive finite nonzero).2 ⟨above, below⟩⟩)

/-- Printing a number loses nothing. Reading a decimal rounds it to the nearest double, and the decimal that is printed is
the shortest one that reads as the number; with its sign, as a decimal with an optional exponent, the text of a finite
number reads as that number, and no other number has that text. It has an exponent outside of the range from `1e-4` up to
`1e15`. In that range the text of a number without a sign is one token of a program, which stands for the number. -/
theorem printing_loses_nothing :
    (∀ d : Decimal, Nearest d.value d.toFloat.toBits.toNat) ∧
    (∀ x : Float, x.isFinite = true → isZero x = false → (Decimal.shortest x.abs).toFloat = x.abs ∧
      ∀ d : Decimal, d.toFloat = x.abs →
        (Text.ofNat (Decimal.shortest x.abs).coefficient).length ≤ (Text.ofNat d.coefficient).length) ∧
    (∀ x : Float, x.isFinite = true → ofText? (text x) = some x) ∧
    Function.Injective text ∧
    (∀ x : Float, x.isFinite = true →
      ('E'.toUInt8 ∈ text x ↔ (1e15 : Float) ≤ x.abs ∨ ((0 : Float) < x.abs ∧ x.abs < 1e-4))) ∧
    ∀ x : Float, isNegative x = false → (isZero x = true ∨ ((1e-4 : Float) ≤ x ∧ x < (1e15 : Float))) →
      scan (text x) = ⟨[⟨.number, text x, 1⟩], [], 1⟩ ∧
        Token.literal? ⟨.number, text x, 1⟩ = some (.number x) := by
  refine ⟨Decimal.nearest_toFloat, ?_, ?_, text_injective, ?_, ?_⟩
  · intro x finite nonzero
    rw [isFinite_iff] at finite
    rw [← Bool.not_eq_true, isZero_iff] at nonzero
    obtain ⟨signs, places⟩ := abs_spec finite.le
    rw [← places] at finite nonzero
    obtain ⟨reads, -, shortest⟩ := Decimal.shortest_spec signs (Nat.pos_of_ne_zero nonzero) finite
    exact ⟨reads, shortest⟩
  · exact fun x finite => ofText?_text_of_finite ((isFinite_iff x).1 finite)
  · exact fun x finite => mem_text_iff_abs ((isFinite_iff x).1 finite)
  · intro x positive range
    obtain ⟨whole, part, plain, reads⟩ := exists_plain_text ((isNegative_eq_false_iff x).1 positive) range
    have literal := plain.ofLexeme.trans reads
    exact ⟨plain.scan, congrArg (fun y => some (Literal.number y)) literal⟩

/-- The sum of `0.1` and `0.2` needs all seventeen digits, and the least double below zero one digit and an exponent. -/
theorem printing_loses_nothing_at_a_sum_and_at_the_least :
    (let x : Float := 0.1 + 0.2
    (x.isFinite = true ∧ isZero x = false ∧ isNegative x = false ∧ (1e-4 : Float) ≤ x ∧ x < (1e15 : Float)) ∧
      text x = Text.ofString "0.30000000000000004" ∧ ofText? (text x) = some x ∧
      (∀ d : Decimal, d.toFloat = x.abs →
        (Text.ofNat (Decimal.shortest x.abs).coefficient).length ≤ (Text.ofNat d.coefficient).length) ∧
      scan (text x) = ⟨[⟨.number, text x, 1⟩], [], 1⟩ ∧
      Token.literal? ⟨.number, text x, 1⟩ = some (.number x)) ∧
    (let y : Float := -5e-324
    y.isFinite = true ∧ text y = Text.ofString "-5E-324" ∧ ofText? (text y) = some y ∧
      ('E'.toUInt8 ∈ text y ↔ (1e15 : Float) ≤ y.abs ∨ ((0 : Float) < y.abs ∧ y.abs < 1e-4))) := by
  obtain ⟨-, shortest, reads, -, exponent, scans⟩ := printing_loses_nothing
  have range : (1e-4 : Float) ≤ 0.1 + 0.2 ∧ (0.1 + 0.2 : Float) < 1e15 := by decide +kernel
  have finite : (0.1 + 0.2 : Float).isFinite = true := by decide +kernel
  have nonzero : isZero (0.1 + 0.2) = false := by decide +kernel
  have positive : isNegative (0.1 + 0.2) = false := by decide +kernel
  have finite' : (-5e-324 : Float).isFinite = true := by decide +kernel
  exact ⟨⟨⟨finite, nonzero, positive, range⟩, by decide +kernel, reads _ finite, (shortest _ finite nonzero).2,
    scans _ positive (.inr range)⟩, finite', by decide +kernel, reads _ finite', exponent _ finite'⟩

end Number

end Lox
