import Lox.Proofs.Number.Packing

/-! Reading a decimal rounds it correctly: the double that a decimal is read as is the one nearest to it. The float
operations keep a mantissa that is cut off together with two bits about what was cut off; those two bits are enough to
round to the nearest double in the end. -/
namespace Lox.Double

open Float.Model UnpackedFloat

/-! Mantissas that are cut off. -/

/-- A mantissa that is cut off, with its two further bits, stands for a number: the first bit says whether at least one
half was cut off, the second one whether anything else was. -/
structure Stands (cut : ExtendedMantissa) (x : ℚ) : Prop where
  lower : cut.mantissa ≤ x
  upper : x < cut.mantissa + 1
  half : cut.roundBit = true ↔ cut.mantissa + 1 / 2 ≤ x
  more : cut.stickyBit = true ↔ x ≠ cut.mantissa ∧ x ≠ cut.mantissa + 1 / 2

private theorem stands_exact (m : Nat) : Stands (.ofMantissaAndAccuracy m .exact) m := by
  have whole : Stands ⟨m, false, false⟩ m := ⟨le_rfl, by simp, by simp, by simp⟩
  exact whole

theorem div_eq_add_mod (n : Nat) {d : Nat} (positive : 0 < d) : (n / d : ℚ) = (n / d : Nat) + (n % d : Nat) / d := by
  have whole : (n : ℚ) = d * (n / d : Nat) + (n % d : Nat) := by exact_mod_cast (Nat.div_add_mod n d).symm
  have scale : (d : ℚ) ≠ 0 := by exact_mod_cast positive.ne'
  nth_rewrite 1 [whole]
  field_simp

/-- The remainder of a division says which quotient the mantissa stands for. -/
theorem stands_quotient (n : Nat) (positive : 0 < d) :
    Stands (.ofMantissaAndAccuracy (n / d) (accuracyOfFraction (n % d) d)) (n / d : ℚ) := by
  have scale : (0 : ℚ) < d := by exact_mod_cast positive
  have rest : (n % d : Nat) < (d : ℚ) := by exact_mod_cast Nat.mod_lt n positive
  rw [div_eq_add_mod n positive]
  generalize n / d = q
  generalize n % d = r at rest
  by_cases whole : r = 0
  · subst whole
    rw [accuracyOfFraction, if_pos rfl, Nat.cast_zero, zero_div, add_zero]
    exact stands_exact q
  · have small : (r : ℚ) / d < 1 := (div_lt_one scale).2 rest
    have left : (0 : ℚ) < r / d := div_pos (by exact_mod_cast Nat.pos_of_ne_zero whole) scale
    have half : (q + 1 / 2 : ℚ) ≤ q + r / d ↔ d ≤ 2 * r := by
      rw [add_le_add_iff_left, div_le_div_iff₀ two_pos scale]
      norm_cast
      omega
    have tie : (q + r / d : ℚ) ≠ q + 1 / 2 ↔ d ≠ 2 * r := by
      rw [Ne, add_right_inj, div_eq_div_iff scale.ne' two_ne_zero]
      norm_cast
      omega
    have bits : ∀ b c, (b = true ↔ d ≤ 2 * r) → (c = true ↔ d ≠ 2 * r) → Stands ⟨q, b, c⟩ (q + r / d) := by
      intro b c first second
      refine ⟨by linarith, by linarith, first.trans half.symm, second.trans ?_⟩
      rw [tie]
      exact ⟨fun other => ⟨by linarith, other⟩, And.right⟩
    rw [accuracyOfFraction, if_neg whole]
    rcases Nat.lt_trichotomy (2 * r) d with less | same | greater
    · rw [compare_lt_iff_lt.2 less]
      exact bits false true (by simp; omega) (by simp; omega)
    · rw [compare_eq_iff_eq.2 same]
      exact bits true false (by simp; omega) (by simp; omega)
    · rw [compare_gt_iff_gt.2 greater]
      exact bits true true (by simp; omega) (by simp; omega)

/-- One bit less. -/
theorem Stands.shiftRightOne (stands : Stands cut x) : Stands cut.shiftRightOne (x / 2) := by
  obtain ⟨m, b, c⟩ := cut
  obtain ⟨lower, upper, half, more⟩ := stands
  simp only at lower upper half more
  have inexact : (b || c) = true ↔ x ≠ m := by
    rw [Bool.or_eq_true, half, more]
    constructor
    · rintro (above | other) rfl
      · linarith
      · exact other.1 rfl
    · intro other
      by_cases above : m + 1 / 2 ≤ x
      · exact .inl above
      · exact .inr ⟨other, fun tie => above tie.ge⟩
  rcases Nat.even_or_odd' m with ⟨k, rfl | rfl⟩
  · have shifted : ExtendedMantissa.shiftRightOne ⟨2 * k, b, c⟩ = ⟨k, false, b || c⟩ := by
      simp [ExtendedMantissa.shiftRightOne]
    push_cast at lower upper inexact
    rw [shifted]
    refine ⟨by linarith, by linarith, ⟨fun set => absurd set Bool.false_ne_true, fun above => ?_⟩,
      inexact.trans ⟨fun other => ⟨?_, ?_⟩, ?_⟩⟩
    · exact absurd above (by linarith)
    · exact fun same => other (by linarith)
    · exact fun tie => absurd upper (by linarith)
    · exact fun other same => other.1 (by linarith)
  · have shifted : ExtendedMantissa.shiftRightOne ⟨2 * k + 1, b, c⟩ = ⟨k, true, b || c⟩ := by
      have half : (2 * k + 1) / 2 = k := by omega
      simp [ExtendedMantissa.shiftRightOne, half]
    push_cast at lower upper inexact
    rw [shifted]
    refine ⟨by linarith, by linarith, ⟨fun _ => by linarith, fun _ => rfl⟩,
      inexact.trans ⟨fun other => ⟨?_, ?_⟩, ?_⟩⟩
    · exact fun same => absurd lower (by linarith)
    · exact fun tie => other (by linarith)
    · exact fun other same => other.2 (by linarith)

private theorem Stands.shiftRight (stands : Stands cut x) (k : Nat) : Stands (cut >>> k) (x / 2 ^ k) := by
  induction k with
  | zero =>
    rw [pow_zero, div_one]
    exact stands
  | succ k ih =>
    rw [pow_succ, ← div_div]
    exact ih.shiftRightOne

/-- Rounding goes down below one half and up above it; at one half it goes to the even mantissa. -/
theorem Stands.rounded (stands : Stands cut x) :
    (cut.roundedMantissa = cut.mantissa ∧ 2 * x ≤ 2 * cut.mantissa + 1 ∧
        (2 * x = 2 * cut.mantissa + 1 → cut.mantissa % 2 = 0)) ∨
      (cut.roundedMantissa = cut.mantissa + 1 ∧ 2 * cut.mantissa + 1 ≤ 2 * x ∧
        (2 * cut.mantissa + 1 = 2 * x → cut.mantissa % 2 = 1)) := by
  obtain ⟨m, b, c⟩ := cut
  obtain ⟨lower, upper, half, more⟩ := stands
  simp only at lower upper half more
  cases b with
  | false =>
    have below : x < m + 1 / 2 := by
      rw [← not_le, ← half]
      decide
    have down : ExtendedMantissa.roundedMantissa ⟨m, false, c⟩ = m := by cases c <;> rfl
    exact .inl ⟨down, by linarith, fun tie => absurd tie (by linarith)⟩
  | true =>
    have above := half.1 rfl
    cases c with
    | true =>
      have other := (more.1 rfl).2
      exact .inr ⟨rfl, by linarith, fun tie => absurd (by linarith) other⟩
    | false =>
      have tie : x = m + 1 / 2 := by
        by_contra other
        cases more.2 ⟨by linarith, other⟩
      have up : ExtendedMantissa.roundedMantissa ⟨m, true, false⟩ = m + m % 2 := rfl
      rcases Nat.mod_two_eq_zero_or_one m with even | odd
      · exact .inl ⟨by rw [up, even]; rfl, by linarith, fun _ => even⟩
      · exact .inr ⟨by rw [up, odd], by linarith, fun _ => odd⟩

/-! Rounding to a double. -/

/-- The exponent with which a double writes a number of the size of `m * 2 ^ e`. -/
def target (m : Nat) (e : Int) : Int := max ((m.log2 : Int) + 1 + e - 53) (-1074)

private theorem shiftToTargetExponent_eq (m : Nat) (e : Int) (accuracy : Accuracy) :
    shiftToTargetExponent .binary64 m e accuracy =
      (ExtendedMantissa.ofMantissaAndAccuracy m accuracy >>> (target m e - e).toNat, e + (target m e - e).toNat) := rfl

/-- A mantissa and an exponent as a float. -/
def settled (final : ExtendedMantissa × Int) : UnpackedFloat :=
  if h : final.1.mantissa = 0 then .zero .positive
  else .finite .positive final.1.mantissa final.2 (Nat.pos_of_ne_zero h)

private theorem roundWithAccuracy_eq (m : Nat) (e : Int) (accuracy : Accuracy) :
    roundWithAccuracy .binary64 .positive m e accuracy =
      settled (shiftToTargetExponent .binary64 (shiftToTargetExponent .binary64 m e accuracy).1.roundedMantissa
        (shiftToTargetExponent .binary64 m e accuracy).2 .exact) := rfl

/-- Rounding can carry into one more bit, and then the spacing doubles; the place is the same. -/
theorem toNat_pack_settled (spaced : Spaced n a r) :
    (pack .binary64 (settled (shiftToTargetExponent .binary64 r (a - 1074) .exact))).toNat = min n infinite := by
  rcases Nat.lt_or_eq_of_le spaced.bounded with inside | rfl
  · have stays : shiftToTargetExponent .binary64 r (a - 1074) .exact = (⟨r, false, false⟩, (a - 1074 : Int)) := by
      have length : r.log2 < 53 := by
        by_cases zero : r = 0
        · rw [zero, Nat.log2_zero]
          decide
        · exact (Nat.log2_lt zero).2 inside
      have amount : (target r (a - 1074) - (a - 1074)).toNat = 0 := by
        rw [target]
        omega
      rw [shiftToTargetExponent_eq, amount, Nat.cast_zero, add_zero]
      rfl
    rw [stays, settled]
    by_cases zero : r = 0
    · rw [dif_pos zero, UnpackedFloat.pack, toNat_packedZero]
      obtain ⟨rfl, aligned, -⟩ := spaced
      rw [signBit]
      omega
    · rw [dif_neg zero, toNat_pack_finite spaced inside, signBit, Nat.zero_add]
  · have carries : shiftToTargetExponent .binary64 (2 ^ 53) (a - 1074) .exact =
        (⟨2 ^ 52, false, false⟩, ((a + 1 : Nat) - 1074 : Int)) := by
      have amount : (target (2 ^ 53) (a - 1074) - (a - 1074)).toNat = 1 := by
        rw [target, Nat.log2_two_pow]
        omega
      have next : (a - 1074 : Int) + (1 : Nat) = (a + 1 : Nat) - 1074 := by omega
      rw [shiftToTargetExponent_eq, amount, next]
      rfl
    have next : Spaced n (a + 1) (2 ^ 52) := ⟨by rw [spaced.place]; omega, .inr le_rfl, by omega⟩
    have nonzero : ¬ 2 ^ 52 = 0 := by decide
    rw [carries, settled, dif_neg nonzero, toNat_pack_finite next (by decide), signBit, Nat.zero_add]

/-- Rounding to a mantissa is rounding to a place. -/
theorem Stands.nearest (stands : Stands cut x) (spaced : Spaced l a cut.mantissa) (inside : cut.mantissa < 2 ^ 53) :
    Nearest (x * 2 ^ (a - 1074 : Int)) (min (a * 2 ^ 52 + cut.roundedMantissa) infinite) := by
  obtain ⟨m, b, c⟩ := cut
  have rounded := stands.rounded
  have lower := stands.lower
  have upper := stands.upper
  simp only at spaced inside rounded lower upper
  have spacing := two_zpow_pos (a - 1074)
  have middle : value l + value (l + 1) = (2 * m + 1) * 2 ^ (a - 1074 : Int) := by
    rw [spaced.value_eq, spaced.value_succ inside]
    ring
  have double : 2 * (x * 2 ^ (a - 1074 : Int)) = 2 * x * 2 ^ (a - 1074 : Int) := by ring
  have place := spaced.place
  apply @nearest_of_between l
  · rw [spaced.value_eq]
    gcongr
  · rw [spaced.value_succ inside]
    gcongr
  · rw [middle, double]
    rcases rounded with ⟨down, half, tie⟩ | ⟨up, half, tie⟩
    · refine .inl ⟨by omega, by gcongr, fun same => ?_⟩
      have even := tie (mul_right_cancel₀ spacing.ne' same)
      omega
    · refine .inr ⟨by omega, by gcongr, fun same => ?_⟩
      have odd := tie (mul_right_cancel₀ spacing.ne' same)
      omega

private theorem Stands.spaced_rounded (stands : Stands cut x) (aligned : a = 0 ∨ 2 ^ 52 ≤ cut.mantissa)
    (inside : cut.mantissa < 2 ^ 53) : Spaced (a * 2 ^ 52 + cut.roundedMantissa) a cut.roundedMantissa := by
  rcases stands.rounded with ⟨down, -⟩ | ⟨up, -⟩
  · rw [down]
    exact ⟨rfl, aligned, inside.le⟩
  · rw [up]
    exact ⟨rfl, aligned.imp_right Nat.le_succ_of_le, inside⟩

private theorem mantissa_ofMantissaAndAccuracy (m : Nat) (accuracy : Accuracy) :
    (ExtendedMantissa.ofMantissaAndAccuracy m accuracy).mantissa = m := by
  rcases accuracy with _ | (_ | _ | _) <;> rfl

section

variable {x : ℚ} (stands : Stands (.ofMantissaAndAccuracy m accuracy) x)
include stands

/-- A mantissa is short enough where so many bits of it are cut off that at most 53 are left. -/
theorem Stands.shifted_lt (length : m.log2 < 53 + k) :
    (ExtendedMantissa.ofMantissaAndAccuracy m accuracy >>> k).mantissa < 2 ^ 53 := by
  have upper := stands.upper
  rw [mantissa_ofMantissaAndAccuracy] at upper
  have above : m + 1 ≤ 2 ^ (53 + k) := Nat.lt_log2_self.trans_le (Nat.pow_le_pow_right two_pos length)
  have above' : (m + 1 : ℚ) ≤ 2 ^ 53 * 2 ^ k := by
    rw [← pow_add]
    exact_mod_cast above
  have less : x / 2 ^ k < 2 ^ 53 := by
    rw [div_lt_iff₀ (by positivity)]
    exact upper.trans_le above'
  exact_mod_cast (stands.shiftRight k).lower.trans_lt less

/-- It is long enough where 53 bits are left. -/
theorem Stands.le_shifted (length : m.log2 = 52 + k) :
    2 ^ 52 ≤ (ExtendedMantissa.ofMantissaAndAccuracy m accuracy >>> k).mantissa := by
  have lower := stands.lower
  rw [mantissa_ofMantissaAndAccuracy] at lower
  have below : 2 ^ (52 + k) ≤ m := by
    rw [← length]
    apply Nat.log2_self_le
    rintro rfl
    rw [Nat.log2_zero] at length
    omega
  have below' : (2 ^ 52 * 2 ^ k : ℚ) ≤ m := by
    rw [← pow_add]
    exact_mod_cast below
  have greater : 2 ^ 52 ≤ x / 2 ^ k := by
    rw [le_div_iff₀ (by positivity)]
    exact below'.trans lower
  have next := greater.trans_lt (stands.shiftRight k).upper
  exact Nat.lt_succ_iff.1 (by exact_mod_cast next)

/-- Rounding a number that is known to enough bits gives the nearest double. -/
theorem nearest_roundWithAccuracy (enough : e ≤ target m e) :
    Nearest (x * 2 ^ e) (pack .binary64 (roundWithAccuracy .binary64 .positive m e accuracy)).toNat := by
  obtain ⟨k, shift⟩ : ∃ k : Nat, target m e = e + k := ⟨(target m e - e).toNat, by omega⟩
  obtain ⟨a, spacing⟩ : ∃ a : Nat, target m e = a - 1074 := ⟨(target m e + 1074).toNat, by rw [target]; omega⟩
  have amount : (target m e - e).toNat = k := by omega
  have same : x * 2 ^ e = x / 2 ^ k * 2 ^ (a - 1074 : Int) := by
    rw [← spacing, shift, zpow_add₀ two_ne_zero, zpow_natCast]
    field_simp
  rw [same, roundWithAccuracy_eq, shiftToTargetExponent_eq m, amount, ← shift, spacing]
  have cut := stands.shiftRight k
  have inside := stands.shifted_lt (by rw [target] at shift; omega : m.log2 < 53 + k)
  have aligned : a = 0 ∨ 2 ^ 52 ≤ (ExtendedMantissa.ofMantissaAndAccuracy m accuracy >>> k).mantissa := by
    by_cases least : a = 0
    · exact .inl least
    · exact .inr (stands.le_shifted (by rw [target] at shift spacing; omega))
  rw [toNat_pack_settled (cut.spaced_rounded aligned inside)]
  exact cut.nearest ⟨rfl, aligned, inside.le⟩ inside

end

/-! Products and quotients. -/

private theorem le_log2 {m k : Nat} (large : 2 ^ k ≤ m) : k ≤ m.log2 :=
  (Nat.le_log2 (by have := Nat.two_pow_pos k; omega)).2 large

section

variable {m m' : Nat} {e e' : Int} (positive : 0 < m) (positive' : 0 < m')

/-- A product is rounded correctly if it has enough bits. -/
theorem nearest_mul (large : 2 ^ 52 ≤ m * m') :
    Nearest ((m * 2 ^ e) * (m' * 2 ^ e')) (pack .binary64
      (UnpackedFloat.mul .binary64 (.finite .positive m e positive) (.finite .positive m' e' positive'))).toNat := by
  have length := le_log2 large
  have enough : e + e' ≤ target (m * m') (e + e') := by
    rw [target]
    omega
  have same : (m * 2 ^ e : ℚ) * (m' * 2 ^ e') = (m * m' : Nat) * 2 ^ (e + e') := by
    rw [zpow_add₀ two_ne_zero]
    push_cast
    ring
  rw [same]
  exact nearest_roundWithAccuracy (stands_exact (m * m')) enough

/-- The exponent that a quotient is computed with. -/
def quotientExponent (m : Nat) (e : Int) (m' : Nat) (e' : Int) : Int :=
  min (e - e') (max ((m.log2 + 1 + e : Int) - (m'.log2 + 1 + e') - 53) (-1074))

private theorem div_eq (shift : e - e' = quotientExponent m e m' e' + (k : Nat)) :
    UnpackedFloat.div .binary64 (.finite .positive m e positive) (.finite .positive m' e' positive') =
      roundWithAccuracy .binary64 .positive (m * 2 ^ k / m') (quotientExponent m e m' e')
        (accuracyOfFraction (m * 2 ^ k % m') m') := by
  have amount : (e - e' - quotientExponent m e m' e').toNat = k := by omega
  rw [← Nat.shiftLeft_eq, ← amount]
  rfl

/-- A quotient is computed to enough bits, so it is always rounded correctly. -/
theorem nearest_div :
    Nearest ((m * 2 ^ e) / (m' * 2 ^ e')) (pack .binary64
      (UnpackedFloat.div .binary64 (.finite .positive m e positive) (.finite .positive m' e' positive'))).toNat := by
  obtain ⟨k, shift⟩ : ∃ k : Nat, e - e' = quotientExponent m e m' e' + k :=
    ⟨(e - e' - quotientExponent m e m' e').toNat, by rw [quotientExponent]; omega⟩
  have enough : quotientExponent m e m' e' ≤ target (m * 2 ^ k / m') (quotientExponent m e m' e') := by
    rw [target]
    by_cases least : quotientExponent m e m' e' ≤ -1074
    · omega
    · have length : 53 + m'.log2 ≤ m.log2 + k := by
        rw [quotientExponent] at shift least
        omega
      have large : 2 ^ 52 * m' ≤ m * 2 ^ k :=
        calc 2 ^ 52 * m' ≤ 2 ^ 52 * 2 ^ (m'.log2 + 1) := Nat.mul_le_mul_left _ Nat.lt_log2_self.le
          _ = 2 ^ (53 + m'.log2) := by ring
          _ ≤ 2 ^ (m.log2 + k) := Nat.pow_le_pow_right two_pos length
          _ = 2 ^ m.log2 * 2 ^ k := pow_add ..
          _ ≤ m * 2 ^ k := Nat.mul_le_mul_right _ (Nat.log2_self_le positive.ne')
      have long := le_log2 ((Nat.le_div_iff_mul_le positive').2 large)
      omega
  have same : (m * 2 ^ e : ℚ) / (m' * 2 ^ e') = ((m * 2 ^ k : Nat) / m' : ℚ) * 2 ^ quotientExponent m e m' e' := by
    have scale : (2 : ℚ) ^ e = 2 ^ k * 2 ^ quotientExponent m e m' e' * 2 ^ e' := by
      rw [← zpow_natCast, ← zpow_add₀ two_ne_zero, ← zpow_add₀ two_ne_zero]
      congr 1
      omega
    have nonzero : (2 : ℚ) ^ e' ≠ 0 := (two_zpow_pos e').ne'
    rw [scale]
    push_cast
    field_simp
  rw [same, div_eq positive positive' shift]
  exact nearest_roundWithAccuracy (stands_quotient _ positive') enough

end

/-! Decimals. -/

theorem ten_zpow_pos (e : Int) : (0 : ℚ) < 10 ^ e := zpow_pos (by norm_num) e

private theorem two_zpow_le_ten_zpow {e : Int} (whole : 0 ≤ e) : (2 : ℚ) ^ e ≤ 10 ^ e := by
  lift e to Nat using whole
  rw [zpow_natCast, zpow_natCast]
  gcongr
  norm_num

private theorem ten_zpow_le_two_zpow {e : Int} (fraction : e ≤ 0) : (10 : ℚ) ^ e ≤ 2 ^ e := by
  have inverse := two_zpow_le_ten_zpow (neg_nonneg.2 fraction)
  rw [zpow_neg, zpow_neg] at inverse
  exact (inv_le_inv₀ (two_zpow_pos e) (ten_zpow_pos e)).1 inverse

/-- Beyond every double. -/
theorem value_infinite_le {m : Nat} {e : Int} (positive : 0 < m) (large : 2048 < e) : value infinite ≤ m * 10 ^ e := by
  have one : (1 : ℚ) ≤ m := by exact_mod_cast positive
  rw [value_infinite]
  calc (2 : ℚ) ^ (1024 : Int) ≤ 2 ^ e := zpow_le_zpow_right₀ one_le_two (by omega)
    _ ≤ 10 ^ e := two_zpow_le_ten_zpow (by omega)
    _ ≤ m * 10 ^ e := le_mul_of_one_le_left (ten_zpow_pos e).le one

/-- Below one half of the least double. -/
theorem lt_value_one {m : Nat} {e : Int} (small : e < -(2048 + m.log2)) : 2 * (m * 10 ^ e) < value 1 := by
  have above : (m : ℚ) < 2 ^ (m.log2 + 1 : Int) := by exact_mod_cast (Nat.lt_log2_self : m < 2 ^ (m.log2 + 1))
  rw [value_one]
  calc 2 * (m * (10 : ℚ) ^ e) < 2 * (2 ^ (m.log2 + 1 : Int) * 10 ^ e) := by
        have := ten_zpow_pos e
        gcongr
    _ ≤ 2 * (2 ^ (m.log2 + 1 : Int) * 2 ^ e) := by
        have := ten_zpow_le_two_zpow (by omega : e ≤ 0)
        gcongr
    _ = 2 ^ (m.log2 + 1 + e + 1) := by rw [two_zpow_succ (_ + e), zpow_add₀ two_ne_zero (_ + 1)]
    _ ≤ 2 ^ (-1074 : Int) := zpow_le_zpow_right₀ one_le_two (by omega)

private theorem nearest_ofScientific (m : Nat) (e : Int) :
    Nearest (m * 10 ^ e) (pack .binary64 (UnpackedFloat.ofScientific .binary64 m e)).toNat := by
  have range : (2 : Int) ^ Format.binary64.exponentBits = 2048 := rfl
  delta UnpackedFloat.ofScientific
  by_cases zero : m = 0
  · rw [dif_pos zero, zero, Nat.cast_zero, zero_mul, UnpackedFloat.pack, toNat_packedZero, ← value_zero]
    exact nearest_value (Nat.zero_le _)
  have positive : 0 < m := Nat.pos_of_ne_zero zero
  rw [dif_neg zero, range]
  by_cases large : e > 2048
  · rw [if_pos large, UnpackedFloat.pack, toNat_packedInfinity, signBit, Nat.zero_add]
    exact nearest_infinite (value_infinite_le positive large)
  rw [if_neg large]
  by_cases small : e < -(2048 + m.log2)
  · rw [if_pos small, UnpackedFloat.pack, toNat_packedZero]
    exact nearest_zero (lt_value_one small)
  rw [if_neg small]
  by_cases whole : 0 ≤ e
  · rw [if_pos whole]
    lift e to Nat using whole
    have long : 2 ^ 52 ≤ m <<< 53 * 10 ^ e := by
      rw [Nat.shiftLeft_eq]
      calc 2 ^ 52 ≤ 1 * 2 ^ 53 * 1 := by decide
        _ ≤ m * 2 ^ 53 * 10 ^ e := Nat.mul_le_mul (Nat.mul_le_mul_right _ positive) (Nat.pow_pos (by decide))
    have same : (m : ℚ) * (10 : ℚ) ^ (e : Int) =
        ((m <<< 53 : Nat) * 2 ^ (-53 : Int)) * ((10 ^ e : Nat) * 2 ^ (0 : Int)) := by
      rw [Nat.shiftLeft_eq, zpow_natCast, zpow_zero]
      push_cast
      ring
    rw [same]
    exact nearest_mul _ _ long
  · rw [if_neg whole]
    obtain ⟨k, rfl⟩ : ∃ k : Nat, e = -k := ⟨(-e).toNat, by omega⟩
    have same : (m : ℚ) * 10 ^ (-k : Int) = (m * 2 ^ (0 : Int)) / ((10 ^ k : Nat) * 2 ^ (0 : Int)) := by
      rw [zpow_neg, zpow_natCast, zpow_zero]
      push_cast
      ring
    have exponent : (- -(k : Int)).toNat = k := by omega
    rw [same]
    simp only [exponent]
    exact nearest_div _ _

/-! The way through doubles that are exact. -/

/-- A whole number is rounded correctly. -/
theorem nearest_round {m : Nat} (positive : 0 < m) :
    Nearest m (pack .binary64 (UnpackedFloat.round .binary64 .positive m 0)).toNat := by
  obtain ⟨k, shift⟩ : ∃ k : Nat, (0 - target m 0).toNat = k := ⟨_, rfl⟩
  have shifted : UnpackedFloat.round .binary64 .positive m 0 =
      roundWithAccuracy .binary64 .positive (m * 2 ^ k) (0 - k) .exact := by
    rw [← Nat.shiftLeft_eq, ← shift]
    rfl
  have length : m.log2 + k ≤ (m * 2 ^ k).log2 := by
    apply le_log2
    rw [pow_add]
    exact Nat.mul_le_mul_right _ (Nat.log2_self_le positive.ne')
  have enough : (0 - k : Int) ≤ target (m * 2 ^ k) (0 - k) := by
    rw [target] at shift ⊢
    omega
  have same : (m : ℚ) = (m * 2 ^ k : Nat) * 2 ^ (0 - k : Int) := by
    rw [zero_sub, zpow_neg, zpow_natCast]
    push_cast
    field_simp
  rw [shifted, same]
  exact nearest_roundWithAccuracy (stands_exact _) enough

private theorem nearest_toFloat_nat {m : Nat} (fits : m.toUInt64.toNat = m) :
    Nearest m m.toUInt64.toFloat.toBits.toNat := by
  have bits : m.toUInt64.toFloat.toBits.toNat =
      (pack .binary64 (UnpackedFloat.normalize .binary64 m.toUInt64.toNat 0 .positive)).toNat := rfl
  rw [bits, fits, UnpackedFloat.normalize]
  rcases Nat.eq_zero_or_pos m with rfl | positive
  · rw [Nat.cast_zero, ← value_zero]
    exact nearest_value (Nat.zero_le _)
  · rw [compare_gt_iff_gt.2 (by omega : (m : Int) > 0)]
    exact nearest_round positive

/-- A whole number of 53 bits is a double. -/
theorem unpack_toFloat {m : Nat} (inside : m < 2 ^ 53) :
    (m = 0 ∧ m.toUInt64.toFloat.toModel.unpack = .zero .positive) ∨
      ∃ r k positive, m.toUInt64.toFloat.toModel.unpack = .finite .positive r k positive ∧ (r * 2 ^ k : ℚ) = m := by
  have rounded := nearest_toFloat_nat (UInt64.toNat_ofNat_of_lt' (inside.trans (by decide)))
  generalize m.toUInt64.toFloat = x at rounded
  obtain ⟨n, same⟩ := exists_value 1074 inside
  rw [Nat.cast_ofNat, sub_self, zpow_zero, mul_one] at same
  have finite : n < infinite := by
    rw [← strictMono_value.lt_iff_lt, same, value_infinite]
    calc (m : ℚ) < 2 ^ (53 : Int) := by exact_mod_cast inside
      _ ≤ 2 ^ (1024 : Int) := zpow_le_zpow_right₀ one_le_two (by decide)
  rw [← same] at rounded
  have bits : x.toBits.toNat = signBit .positive + n := by
    rw [rounded.unique (nearest_value finite.le), signBit, Nat.zero_add]
  obtain ⟨sign, place⟩ := eq_of_toNat_toBits bits (finite.trans (by decide))
  rw [← place] at same finite
  have shape := unpacked x
  generalize x.toModel.unpack = u at shape
  cases shape with
  | zero least =>
    rw [least, value_zero] at same
    exact .inl ⟨by exact_mod_cast same.symm, by rw [sign]⟩
  | finite spaced _ positive =>
    rw [spaced.value_eq] at same
    exact .inr ⟨_, _, positive, by rw [sign], same⟩
  | infinity last => exact absurd last finite.ne
  | notANumber beyond => exact absurd beyond finite.le.not_gt

/-- Whether a float is a whole number, written with all its bits. -/
def isWhole (n : Nat) : UnpackedFloat → Bool
  | .finite .positive p k _ => 2 ^ 52 ≤ p && p * 2 ^ k.toNat == n * 2 ^ (-k).toNat
  | _ => false

private theorem isWhole_powers : ∀ i : Fin Float.exactlyRepresentablePowersOfTen.size,
    isWhole (10 ^ i.val) Float.exactlyRepresentablePowersOfTen[i].toModel.unpack = true := by decide +kernel

/-- The powers of ten that are there as doubles are exact. -/
theorem exists_exact_power (e : Nat) (inside : e < Float.exactlyRepresentablePowersOfTen.size) :
    ∃ p k positive, Float.exactlyRepresentablePowersOfTen[e].toModel.unpack = .finite .positive p k positive ∧
      (p * 2 ^ k : ℚ) = 10 ^ e ∧ 2 ^ 52 ≤ p := by
  have whole := isWhole_powers ⟨e, inside⟩
  simp only [Fin.getElem_fin] at whole
  generalize Float.exactlyRepresentablePowersOfTen[e].toModel.unpack = u at whole
  cases u with
  | finite sign p k positive =>
    cases sign with
    | negative => cases whole
    | positive =>
      simp only [isWhole, Bool.and_eq_true, decide_eq_true_eq, beq_iff_eq] at whole
      obtain ⟨long, same⟩ := whole
      refine ⟨p, k, positive, rfl, ?_, long⟩
      have split : k = k.toNat - ((-k).toNat : Int) := by omega
      rw [split, zpow_sub₀ two_ne_zero, zpow_natCast, zpow_natCast, mul_div_assoc', div_eq_iff (by positivity)]
      exact_mod_cast same
  | infinity | notANumber | zero => cases whole

/-- Two exact doubles are multiplied and divided with one rounding. -/
theorem nearest_exact {x y : Float} {m n : Nat} {k : Int} {positive : 0 < p}
    (first : (m = 0 ∧ x.toModel.unpack = .zero .positive) ∨
      ∃ r k positive, x.toModel.unpack = .finite .positive r k positive ∧ (r * 2 ^ k : ℚ) = m)
    (second : y.toModel.unpack = .finite .positive p k positive) (value : (p * 2 ^ k : ℚ) = n) (long : 2 ^ 52 ≤ p) :
    Nearest (m * n) (x * y).toBits.toNat ∧ Nearest (m / n) (x / y).toBits.toNat := by
  have product : (x * y).toBits.toNat =
      (pack .binary64 (UnpackedFloat.mul .binary64 x.toModel.unpack y.toModel.unpack)).toNat := rfl
  have quotient : (x / y).toBits.toNat =
      (pack .binary64 (UnpackedFloat.div .binary64 x.toModel.unpack y.toModel.unpack)).toNat := rfl
  rw [product, quotient, second]
  rcases first with ⟨rfl, zero⟩ | ⟨r, l, nonzero, finite, same⟩
  · rw [zero, Nat.cast_zero, zero_mul, zero_div, ← value_zero]
    exact ⟨nearest_value (Nat.zero_le _), nearest_value (Nat.zero_le _)⟩
  · rw [finite, ← same, ← value]
    exact ⟨nearest_mul _ _ (long.trans (Nat.le_mul_of_pos_left p nonzero)), nearest_div _ _⟩

/-- A decimal with few digits is computed from two exact doubles, any other one from its digits; either way it is rounded
once. -/
theorem nearest_float_ofScientific (m : Nat) (negative : Bool) (e : Nat) :
    Nearest (m * 10 ^ (if negative then -e else e : Int)) (Float.ofScientific m negative e).toBits.toNat := by
  have inverse : (m : ℚ) * 10 ^ (-e : Int) = m / (10 ^ e : Nat) := by
    rw [zpow_neg, zpow_natCast]
    push_cast
    rfl
  by_cases fast : m < 2 ^ 53 ∧ e ≤ 22
  · obtain ⟨p, k, positive, power, exact, long⟩ := exists_exact_power e (Nat.lt_succ_of_le fast.2)
    obtain ⟨product, quotient⟩ := nearest_exact (unpack_toFloat fast.1) power (by exact_mod_cast exact) long
    rw [Float.ofScientific, dif_pos fast]
    cases negative with
    | true =>
      rw [if_pos rfl, inverse]
      exact quotient
    | false =>
      rw [if_neg Bool.false_ne_true, zpow_natCast, ← Nat.cast_ofNat, ← Nat.cast_pow]
      exact product
  · have digits := nearest_ofScientific m (if negative then -e else e)
    rw [Float.ofScientific, dif_neg fast]
    cases negative with
    | true =>
      rw [Int.negOfNat_eq]
      exact digits
    | false => exact digits

end Lox.Double

namespace Lox.Decimal

/-- The number that a decimal writes. -/
def value (d : Decimal) : ℚ := d.coefficient * 10 ^ d.exponent

theorem value_shift (c n : Nat) (e : Int) : value ⟨c * 10 ^ n, e⟩ = value ⟨c, e + n⟩ := by
  simp only [value]
  rw [zpow_add₀ (by norm_num), zpow_natCast]
  push_cast
  ring

/-- A decimal is read as the double nearest to it. -/
theorem nearest_toFloat (d : Decimal) : Double.Nearest d.value d.toFloat.toBits.toNat := by
  obtain ⟨m, e⟩ := d
  cases e with
  | ofNat e => exact Double.nearest_float_ofScientific m false e
  | negSucc e => exact Double.nearest_float_ofScientific m true (e + 1)

end Lox.Decimal
