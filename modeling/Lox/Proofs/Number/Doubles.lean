import Mathlib
import Lox.Number

/-! The doubles in order. The bits of a double, without its sign, are its place among the doubles that are not negative:
a larger place is a larger value. Between two powers of two the doubles are evenly spaced, so each is a mantissa of at
most 53 bits times the spacing. A number is rounded to the place that is nearest to it. -/
namespace Lox.Double

/-- The place of infinity, right after the finite doubles. -/
def infinite : Nat := 2047 * 2 ^ 52

def mantissa (n : Nat) : Nat := if n / 2 ^ 52 = 0 then n % 2 ^ 52 else n % 2 ^ 52 + 2 ^ 52

def exponent (n : Nat) : Int := if n / 2 ^ 52 = 0 then -1074 else (n / 2 ^ 52 : Nat) - 1075

/-- The value of the double in a place. Infinity counts as the power of two that comes after the finite doubles. -/
def value (n : Nat) : ℚ := mantissa n * 2 ^ exponent n

/-! Mantissas and their spacing. -/

/-- The place `n` is that of `r` times the spacing `2 ^ (a - 1074)`. -/
structure Spaced (n a r : Nat) : Prop where
  place : n = a * 2 ^ 52 + r
  aligned : a = 0 ∨ 2 ^ 52 ≤ r
  bounded : r ≤ 2 ^ 53

private theorem exists_spaced (n : Nat) : ∃ a r, Spaced n a r ∧ r < 2 ^ 53 := by
  by_cases small : n < 2 ^ 52
  · exact ⟨0, n, ⟨by omega, .inl rfl, by omega⟩, by omega⟩
  · exact ⟨n / 2 ^ 52 - 1, n % 2 ^ 52 + 2 ^ 52, ⟨by omega, .inr (by omega), by omega⟩, by omega⟩

theorem two_zpow_pos (e : Int) : (0 : ℚ) < 2 ^ e := zpow_pos (by norm_num) e

theorem two_zpow_succ (e : Int) : (2 : ℚ) ^ (e + 1) = 2 * 2 ^ e := by
  rw [zpow_add_one₀ two_ne_zero, mul_comm]

/-- A mantissa that is a power of two may also be written with the next spacing; both ways give one value. -/
theorem Spaced.value_eq (spaced : Spaced n a r) : value n = r * 2 ^ (a - 1074 : Int) := by
  obtain ⟨rfl, aligned, bounded⟩ := spaced
  rcases Nat.lt_or_ge r (2 ^ 52) with small | large
  · obtain rfl : a = 0 := by omega
    have field : (0 * 2 ^ 52 + r) / 2 ^ 52 = 0 := by omega
    rw [value, mantissa, exponent, if_pos field, if_pos field]
    congr 2
    omega
  · rcases Nat.lt_or_eq_of_le bounded with inside | rfl
    · have field : (a * 2 ^ 52 + r) / 2 ^ 52 = a + 1 := by omega
      have fraction : (a * 2 ^ 52 + r) % 2 ^ 52 + 2 ^ 52 = r := by omega
      rw [value, mantissa, exponent, field, fraction, if_neg (by omega), if_neg (by omega)]
      congr 2
      omega
    · have field : (a * 2 ^ 52 + 2 ^ 53) / 2 ^ 52 = a + 2 := by omega
      have fraction : (a * 2 ^ 52 + 2 ^ 53) % 2 ^ 52 + 2 ^ 52 = 2 ^ 52 := by omega
      have next : ((a + 2 : Nat) : Int) - 1075 = a - 1074 + 1 := by omega
      rw [value, mantissa, exponent, field, fraction, if_neg (by omega), if_neg (by omega), next, two_zpow_succ]
      push_cast
      ring

private theorem Spaced.succ (spaced : Spaced n a r) (inside : r < 2 ^ 53) : Spaced (n + 1) a (r + 1) where
  place := by rw [spaced.place, Nat.add_assoc]
  aligned := spaced.aligned.imp_right Nat.le_succ_of_le
  bounded := inside

theorem Spaced.value_succ (spaced : Spaced n a r) (inside : r < 2 ^ 53) :
    value (n + 1) = (r + 1) * 2 ^ (a - 1074 : Int) := by
  rw [(spaced.succ inside).value_eq]
  push_cast
  rfl

theorem value_lt_succ (n : Nat) : value n < value (n + 1) := by
  obtain ⟨a, r, spaced, inside⟩ := exists_spaced n
  rw [spaced.value_eq, spaced.value_succ inside]
  have := two_zpow_pos (a - 1074)
  linarith

theorem strictMono_value : StrictMono value := strictMono_nat_of_lt_succ value_lt_succ

theorem value_zero : value 0 = 0 := by
  have zero : Spaced 0 0 0 := ⟨rfl, .inl rfl, by omega⟩
  rw [zero.value_eq, Nat.cast_zero, zero_mul]

theorem value_one : value 1 = 2 ^ (-1074 : Int) := by
  have one : Spaced 1 0 1 := ⟨rfl, .inl rfl, by omega⟩
  rw [one.value_eq, Nat.cast_one, one_mul]
  rfl

theorem value_infinite : value infinite = 2 ^ (1024 : Int) := by
  have top : Spaced infinite 2046 (2 ^ 52) := ⟨by rw [infinite]; omega, .inr le_rfl, by omega⟩
  rw [top.value_eq, Nat.cast_pow, Nat.cast_ofNat, ← zpow_natCast, ← zpow_add₀ two_ne_zero]
  rfl

theorem value_pos (positive : 0 < n) : 0 < value n := by
  rw [← value_zero]
  exact strictMono_value positive

/-- The spacing below a double is not small next to it: 53 bits of mantissa reach every double. -/
theorem value_succ_le (n : Nat) : value (n + 1) ≤ 2 ^ 53 * (value (n + 1) - value n) := by
  obtain ⟨a, r, spaced, inside⟩ := exists_spaced n
  have bound : (r + 1 : ℚ) ≤ 2 ^ 53 := by exact_mod_cast inside
  have spacing := two_zpow_pos (a - 1074)
  rw [spaced.value_eq, spaced.value_succ inside]
  calc (r + 1) * (2 : ℚ) ^ (a - 1074 : Int) ≤ 2 ^ 53 * 2 ^ (a - 1074 : Int) := by gcongr
    _ = 2 ^ 53 * ((r + 1) * 2 ^ (a - 1074 : Int) - r * 2 ^ (a - 1074 : Int)) := by ring

/-- A mantissa of 53 bits with any spacing is a double. -/
theorem exists_value {r : Nat} (a : Nat) (inside : r < 2 ^ 53) : ∃ n, value n = r * 2 ^ (a - 1074 : Int) := by
  -- a mantissa that is too short for its spacing is doubled, and the spacing halved
  induction a generalizing r with
  | zero => exact ⟨_, Spaced.value_eq ⟨rfl, .inl rfl, inside.le⟩⟩
  | succ a ih =>
    by_cases short : r < 2 ^ 52
    · obtain ⟨n, same⟩ := @ih (2 * r) (by omega)
      have next : ((a + 1 : Nat) : Int) - 1074 = a - 1074 + 1 := by omega
      refine ⟨n, ?_⟩
      rw [same, next, two_zpow_succ]
      push_cast
      ring
    · exact ⟨_, Spaced.value_eq ⟨rfl, .inr (by omega), inside.le⟩⟩

/-! Rounding. -/

/-- The place nearest to a number, and of two that are equally near the even one. -/
structure Nearest (q : ℚ) (n : Nat) : Prop where
  bounded : n ≤ infinite
  nearest : ∀ m ≤ infinite, |q - value n| ≤ |q - value m|
  even : ∀ m ≤ infinite, m ≠ n → |q - value m| = |q - value n| → n % 2 = 0

/-- It is enough to compare with the midpoints on both sides. -/
theorem nearest_of_midpoints (bounded : n ≤ infinite)
    (below : ∀ l, n = l + 1 → value l + value n ≤ 2 * q ∧ (value l + value n = 2 * q → n % 2 = 0))
    (above : n < infinite → 2 * q ≤ value n + value (n + 1) ∧ (2 * q = value n + value (n + 1) → n % 2 = 0)) :
    Nearest q n := by
  have compared : ∀ m ≤ infinite, m ≠ n →
      |q - value n| ≤ |q - value m| ∧ (|q - value m| = |q - value n| → n % 2 = 0) := by
    intro m inside other
    rcases Nat.lt_or_gt_of_ne other with less | greater
    · obtain ⟨l, rfl⟩ : ∃ l, n = l + 1 := ⟨n - 1, by omega⟩
      obtain ⟨half, tie⟩ := below l rfl
      have before : value m ≤ value l := strictMono_value.monotone (by omega)
      have next := value_lt_succ l
      rw [abs_of_pos (by linarith : 0 < q - value m)]
      rcases le_total (value (l + 1)) q with le | le
      · rw [abs_of_nonneg (by linarith)]
        exact ⟨by linarith, fun same => absurd same (by linarith)⟩
      · rw [abs_of_nonpos (by linarith)]
        exact ⟨by linarith, fun same => tie (by linarith)⟩
    · obtain ⟨half, tie⟩ := above (by omega)
      have after : value (n + 1) ≤ value m := strictMono_value.monotone greater
      have next := value_lt_succ n
      rw [abs_of_neg (by linarith : q - value m < 0)]
      rcases le_total q (value n) with le | le
      · rw [abs_of_nonpos (by linarith)]
        exact ⟨by linarith, fun same => absurd same (by linarith)⟩
      · rw [abs_of_nonneg (by linarith)]
        exact ⟨by linarith, fun same => tie (by linarith)⟩
  refine ⟨bounded, ?_, fun m inside other => (compared m inside other).2⟩
  intro m inside
  by_cases same : m = n
  · rw [same]
  · exact (compared m inside same).1

theorem nearest_infinite (large : value infinite ≤ q) : Nearest q infinite := by
  refine nearest_of_midpoints le_rfl ?_ fun less => absurd less (lt_irrefl _)
  intro l last
  have before := value_lt_succ l
  rw [← last] at before
  exact ⟨by linarith, fun same => absurd same (by linarith)⟩

/-- A number between two neighbours is rounded to the nearer one. -/
theorem nearest_of_between (lower : value l ≤ q) (upper : q < value (l + 1))
    (rounded : (n = l ∧ 2 * q ≤ value l + value (l + 1) ∧ (2 * q = value l + value (l + 1) → l % 2 = 0)) ∨
      (n = l + 1 ∧ value l + value (l + 1) ≤ 2 * q ∧ (value l + value (l + 1) = 2 * q → l % 2 = 1))) :
    Nearest q (min n infinite) := by
  by_cases bounded : n ≤ infinite
  · rw [Nat.min_eq_left bounded]
    rcases rounded with ⟨rfl, half, tie⟩ | ⟨rfl, half, tie⟩
    · refine nearest_of_midpoints bounded ?_ fun _ => ⟨half, tie⟩
      rintro k rfl
      have before := value_lt_succ k
      exact ⟨by linarith, fun same => absurd same (by linarith)⟩
    · refine nearest_of_midpoints bounded ?_ ?_
      · intro k same
        obtain rfl : l = k := by omega
        exact ⟨half, fun same => by have := tie same; omega⟩
      · intro _
        have after := value_lt_succ (l + 1)
        exact ⟨by linarith, fun same => absurd same (by linarith)⟩
  · rw [Nat.min_eq_right (by omega)]
    apply nearest_infinite
    exact (strictMono_value.monotone (by omega : infinite ≤ l)).trans lower

theorem nearest_value (bounded : n ≤ infinite) : Nearest (value n) n := by
  apply nearest_of_midpoints bounded
  · rintro l rfl
    have := value_lt_succ l
    exact ⟨by linarith, fun tie => absurd tie (by linarith)⟩
  · intro _
    have := value_lt_succ n
    exact ⟨by linarith, fun tie => absurd tie (by linarith)⟩

theorem nearest_zero (small : 2 * q < value 1) : Nearest q 0 := by
  refine nearest_of_midpoints (Nat.zero_le _) (fun l same => by omega) fun _ => ?_
  rw [value_zero, zero_add]
  exact ⟨small.le, fun same => absurd same small.ne⟩

/-- A larger number is not rounded to a smaller double. -/
theorem Nearest.mono (first : Nearest q n) (second : Nearest p m) (le : q ≤ p) : n ≤ m := by
  apply Nat.le_of_not_lt
  intro less
  have order := strictMono_value less
  have nearN := first.nearest m second.bounded
  have nearM := second.nearest n first.bounded
  -- both numbers are then halfway between the two doubles
  have midN : value m + value n ≤ 2 * q := by
    rcases abs_cases (q - value n) with h | h <;> rcases abs_cases (q - value m) with h' | h' <;> linarith
  have midM : 2 * p ≤ value m + value n := by
    rcases abs_cases (p - value n) with h | h <;> rcases abs_cases (p - value m) with h' | h' <;> linarith
  obtain rfl : q = p := by linarith
  have tie : |q - value m| = |q - value n| := by
    rw [abs_of_pos (by linarith : 0 < q - value m), abs_of_neg (by linarith : q - value n < 0)]
    linarith
  have evenN := first.even m second.bounded less.ne tie
  have evenM := second.even n first.bounded less.ne' tie.symm
  -- so there is a double between them, which is nearer
  have lower : value m < value (m + 1) := value_lt_succ m
  have upper : value (m + 1) < value n := strictMono_value (by omega)
  have bounded := first.bounded
  have between := first.nearest (m + 1) (by omega)
  rw [abs_of_neg (by linarith : q - value n < 0)] at between
  rcases abs_cases (q - value (m + 1)) with h | h <;> linarith

theorem Nearest.unique (first : Nearest q n) (second : Nearest q m) : n = m :=
  Nat.le_antisymm (first.mono second le_rfl) (second.mono first le_rfl)

end Lox.Double
