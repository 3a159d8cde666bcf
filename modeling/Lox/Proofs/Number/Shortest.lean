import Lox.Proofs.Number.Rounding

/-! The shortest decimal of a double reads back as that double, and no decimal with fewer digits does. The search looks
at ever finer grids of decimals, each with one more digit, and there only at the two neighbours of the double: whenever
a point of a grid reads back, a neighbour does too, since it lies between that point and the double. On the grid of
seventeen digits the nearer neighbour always reads back. -/
namespace Lox

/-! Lengths of digits. -/

private theorem Text.length_ofNat_le_iff (positive : 0 < k) : (Text.ofNat n).length ≤ k ↔ n < 10 ^ k := by
  rw [Text.ofNat, List.length_map, Nat.length_toDigits_le_iff (by decide) positive]

private theorem Text.length_ofNat_pos (n : Nat) :
    0 < (Text.ofNat n).length := List.length_pos_of_ne_nil (Text.ofNat_ne_nil n)

private theorem Text.lt_pow_length (n : Nat) : n < 10 ^ (Text.ofNat n).length :=
  (length_ofNat_le_iff (length_ofNat_pos n)).1 le_rfl

private theorem Text.pow_length_le (positive : 0 < n) : 10 ^ ((Text.ofNat n).length - 1) ≤ n := by
  by_cases single : (Text.ofNat n).length = 1
  · rw [single]
    exact positive
  · apply Nat.le_of_not_lt
    have several := length_ofNat_pos n
    rw [← length_ofNat_le_iff (by omega)]
    omega

/-- The number of digits tells the size. -/
theorem Text.length_ofNat_spec (positive : 0 < n) :
    (10 : ℚ) ^ ((Text.ofNat n).length - 1 : Int) ≤ n ∧ (n + 1 : ℚ) ≤ 10 ^ ((Text.ofNat n).length : Int) := by
  rw [← Nat.cast_pred (length_ofNat_pos n), zpow_natCast, zpow_natCast]
  exact ⟨by exact_mod_cast pow_length_le positive, by exact_mod_cast lt_pow_length n⟩

namespace Decimal

open Double

/-! The parts of the search. -/

/-- The quotient of a finite double is its value. -/
theorem quotient_spec (x : Float) :
    0 < (quotient x).2 ∧ ((quotient x).1 / (quotient x).2 : ℚ) = Double.value (place x) := by
  have bits : x.toBits.toNat % Nat.pow 2 63 = place x := rfl
  have width : Nat.pow 2 52 = 2 ^ 52 := rfl
  have parts : (if place x / 2 ^ 52 = 0 then (place x % 2 ^ 52, (-1074 : Int))
      else (place x % 2 ^ 52 + 2 ^ 52, Int.ofNat (place x / 2 ^ 52) - 1075)) =
      (mantissa (place x), Double.exponent (place x)) := by
    rw [mantissa, Double.exponent]
    by_cases small : place x / 2 ^ 52 = 0
    · simp only [if_pos small]
    · simp only [if_neg small]
      rfl
  rw [quotient, Double.value]
  simp only [bits, width, parts]
  generalize mantissa (place x) = m
  cases Double.exponent (place x) with
  | ofNat e =>
    have scaled : ((m * 2 ^ e : Nat) / (1 : Nat) : ℚ) = m * 2 ^ Int.ofNat e := by
      rw [Int.ofNat_eq_natCast, zpow_natCast]
      push_cast
      ring
    exact ⟨Nat.one_pos, scaled⟩
  | negSucc e =>
    have scaled : (m / (2 ^ (e + 1) : Nat) : ℚ) = m * 2 ^ Int.negSucc e := by
      rw [zpow_negSucc]
      push_cast
      ring
    exact ⟨Nat.pow_pos two_pos, scaled⟩

private theorem lt_floor (n d : Nat) : (n / d : ℚ) < (n / d : Nat) + 1 := by
  have above := Nat.lt_floor_add_one (n / d : ℚ)
  rwa [Nat.floor_div_eq_div] at above

/-- The digits before the point tell the size. -/
theorem length_toDigits_spec {n d : Nat} (whole : 1 ≤ (n / d : ℚ)) :
    (10 : ℚ) ^ ((Nat.toDigits 10 (n / d)).length - 1 : Int) ≤ n / d ∧
      (n / d : ℚ) < 10 ^ ((Nat.toDigits 10 (n / d)).length : Int) := by
  have length : (Nat.toDigits 10 (n / d)).length = (Text.ofNat (n / d)).length := (List.length_map _).symm
  have positive : 0 < n / d := by
    have next : (0 : ℚ) < (n / d : Nat) := by linarith [lt_floor n d]
    exact_mod_cast next
  obtain ⟨lower, upper⟩ := Text.length_ofNat_spec positive
  rw [length]
  exact ⟨lower.trans Nat.cast_div_le, (lt_floor n d).trans_le upper⟩

private theorem cast_pow_ten (k : Nat) : ((Nat.pow 10 k : Nat) : ℚ) = 10 ^ (k : Int) := by
  rw [zpow_natCast]
  exact Nat.cast_pow 10 k

/-- The digits of a quotient that is scaled up first. -/
theorem length_toDigits_scaled {num den : Nat} (p : Nat) (least : (10 : ℚ) ^ (-p : Int) ≤ num / den) :
    (10 : ℚ) ^ ((Nat.toDigits 10 (num * Nat.pow 10 p / den)).length - p - 1 : Int) ≤ num / den ∧
      (num / den : ℚ) < 10 ^ ((Nat.toDigits 10 (num * Nat.pow 10 p / den)).length - p : Int) := by
  have shifted : ((num * Nat.pow 10 p : Nat) / den : ℚ) = num / den * 10 ^ (p : Int) := by
    rw [Nat.cast_mul, cast_pow_ten]
    ring
  have whole : 1 ≤ (num / den : ℚ) * 10 ^ (p : Int) := by
    rwa [zpow_neg, inv_le_iff_one_le_mul₀ (ten_zpow_pos _)] at least
  have digits := length_toDigits_spec (shifted ▸ whole)
  rw [shifted, ← div_le_iff₀ (ten_zpow_pos _), ← lt_div_iff₀ (ten_zpow_pos _), ← zpow_sub₀ (by norm_num),
    ← zpow_sub₀ (by norm_num), sub_right_comm] at digits
  exact digits

/-- The number of places before the point. -/
theorem magnitude_spec {num den : Nat} (positive : 0 < den) (least : (10 : ℚ) ^ (-340 : Int) ≤ num / den) :
    (10 : ℚ) ^ (magnitude num den - 1) ≤ num / den ∧ (num / den : ℚ) < 10 ^ magnitude num den := by
  rw [magnitude]
  by_cases large : den ≤ num
  · rw [if_pos large]
    have whole : 1 ≤ (num / den : ℚ) := by
      rw [one_le_div (by exact_mod_cast positive)]
      exact_mod_cast large
    exact length_toDigits_spec whole
  · rw [if_neg large]
    have places : (340 : Int) = (340 : Nat) := rfl
    rw [places] at least ⊢
    generalize 340 = p at least ⊢
    exact length_toDigits_scaled p least

/-- The two multiples of a power of ten around a number, the nearer one first. -/
def Around (v : ℚ) (e : Int) (ds : List Decimal) : Prop := ∃ c : Nat,
  c * 10 ^ e ≤ v ∧ v < (c + 1) * 10 ^ e ∧
    ((ds = [⟨c, e⟩, ⟨c + 1, e⟩] ∧ 2 * (v - c * 10 ^ e) ≤ 10 ^ e) ∨
      (ds = [⟨c + 1, e⟩, ⟨c, e⟩] ∧ 10 ^ e ≤ 2 * (v - c * 10 ^ e)))

private theorem around_quotient {n d : Nat} (positive : 0 < d) (e : Int) : Around (n / d * 10 ^ e) e
    (if 2 * (n % d) < d ∨ (2 * (n % d) = d ∧ n / d % 2 = 0) then [⟨n / d, e⟩, ⟨n / d + 1, e⟩]
      else [⟨n / d + 1, e⟩, ⟨n / d, e⟩]) := by
  have grid := ten_zpow_pos e
  have scale : (0 : ℚ) < d := by exact_mod_cast positive
  have rest : (n / d : ℚ) * 10 ^ e - (n / d : Nat) * 10 ^ e = (n % d : Nat) / d * 10 ^ e := by
    rw [div_eq_add_mod n positive]
    ring
  refine ⟨n / d, ?_, ?_, ?_⟩
  · have : ((n / d : Nat) : ℚ) ≤ n / d := Nat.cast_div_le
    gcongr
  · have := lt_floor n d
    gcongr
  · rw [rest]
    have twice : 2 * ((n % d : Nat) / d * (10 : ℚ) ^ e) = (2 * (n % d) : Nat) / d * 10 ^ e := by
      push_cast
      ring
    rw [twice]
    by_cases low : 2 * (n % d) < d ∨ (2 * (n % d) = d ∧ n / d % 2 = 0)
    · rw [if_pos low]
      refine .inl ⟨rfl, mul_le_of_le_one_left grid.le ?_⟩
      rw [div_le_one scale]
      exact_mod_cast low.elim Nat.le_of_lt fun tie => tie.1.le
    · rw [if_neg low]
      refine .inr ⟨rfl, le_mul_of_one_le_left grid.le ?_⟩
      rw [one_le_div scale]
      exact_mod_cast Nat.le_of_not_lt fun less => low (.inl less)

private theorem around_neighbours {num den : Nat} (positive : 0 < den) (e : Int) :
    Around (num / den) e (neighbours num den e) := by
  cases e with
  | ofNat e =>
    have scaled : (num / den : ℚ) = num / (den * Nat.pow 10 e : Nat) * 10 ^ Int.ofNat e := by
      rw [Nat.cast_mul, cast_pow_ten, Int.ofNat_eq_natCast]
      field_simp
    rw [scaled]
    exact around_quotient (Nat.mul_pos positive (Nat.pow_pos (by decide))) _
  | negSucc e =>
    have scaled : (num / den : ℚ) = (num * Nat.pow 10 (e + 1) : Nat) / den * 10 ^ Int.negSucc e := by
      rw [Nat.cast_mul, cast_pow_ten, zpow_natCast, zpow_negSucc]
      field_simp
    rw [scaled]
    exact around_quotient positive _

/-! Reading back. -/

/-- A decimal reads as the double that is nearest to it. -/
theorem toFloat_eq_iff {x : Float} (positive : sign x = .positive) (d : Decimal) :
    d.toFloat = x ↔ Nearest d.value (place x) := by
  have rounded := d.nearest_toFloat
  constructor
  · rintro rfl
    have bits := toNat_toBits d.toFloat
    rw [positive, signBit, Nat.zero_add] at bits
    rwa [← bits]
  · intro nearest
    have bits : d.toFloat.toBits.toNat = signBit .positive + place x := by
      rw [rounded.unique nearest, signBit, Nat.zero_add]
    obtain ⟨sign, place⟩ := eq_of_toNat_toBits bits (place_lt x)
    exact eq_of_place (sign.trans positive.symm) place

theorem toFloat_eq_of_value_eq {c d : Decimal} (same : c.value = d.value) : c.toFloat = d.toFloat := by
  have rounded := c.nearest_toFloat
  rw [same] at rounded
  exact Float.toBits_inj.1 (UInt64.toNat_inj.1 (rounded.unique d.nearest_toFloat))

private theorem trim_spec (n : Nat) (d : Decimal) :
    (trim n d).value = d.value ∧ (trim n d).coefficient ≤ d.coefficient ∧
    (0 < d.coefficient → 0 < (trim n d).coefficient) := by
  induction n generalizing d with
  | zero => exact ⟨rfl, le_rfl, id⟩
  | succ n ih =>
    rw [trim]
    by_cases ends : d.coefficient ≠ 0 ∧ d.coefficient % 10 = 0
    · rw [if_pos ends]
      obtain ⟨same, shorter, nonzero⟩ := ih ⟨d.coefficient / 10, d.exponent + 1⟩
      refine ⟨?_, shorter.trans (Nat.div_le_self ..), fun _ => nonzero (by simp only; omega)⟩
      have coefficient : (d.coefficient : ℚ) = (d.coefficient / 10 : Nat) * 10 := by
        exact_mod_cast (Nat.div_mul_cancel (Nat.dvd_of_mod_eq_zero ends.2)).symm
      rw [same, value, value, coefficient, zpow_add_one₀ (by norm_num)]
      ring
    · rw [if_neg ends]
      exact ⟨rfl, le_rfl, id⟩

private theorem trim_pow (few : j ≤ n) (e : Int) : trim n ⟨10 ^ j, e⟩ = ⟨1, e + j⟩ := by
  induction j generalizing n e with
  | zero =>
    cases n with
    | zero => simp [trim]
    | succ n => simp [trim]
  | succ j ih =>
    cases n with
    | zero => omega
    | succ n =>
      have ends : 10 ^ (j + 1) ≠ 0 ∧ 10 ^ (j + 1) % 10 = 0 := ⟨by positivity, by rw [pow_succ]; omega⟩
      have shorter : 10 ^ (j + 1) / 10 = 10 ^ j := by rw [pow_succ]; omega
      rw [trim, if_pos ends, shorter, ih (by omega)]
      congr 1
      push_cast
      ring

/-- A number within half a step of a grid is read as the double if the steps are small next to the double. -/
theorem nearest_of_grid (nonzero : 0 < n) (finite : n < infinite) (near : 2 * |q - Double.value n| ≤ step)
    (fine : step * 10 ^ 16 ≤ Double.value n) : Nearest q n := by
  have value := value_pos nonzero
  obtain ⟨lower, upper⟩ := abs_le.1 (by linarith : |q - Double.value n| ≤ step / 2)
  apply nearest_of_midpoints finite.le
  · rintro l rfl
    have gap := value_succ_le l
    exact ⟨by linarith, fun same => absurd same (by linarith)⟩
  · intro _
    have gap := value_succ_le n
    have next := value_lt_succ n
    exact ⟨by linarith, fun same => absurd same (by linarith)⟩

section

variable {x : Float} (positive : sign x = .positive) (finite : place x < infinite)
include positive finite

/-- What lies between a double and a decimal that reads as that double reads as that double. -/
theorem toFloat_between {a b : Decimal} (reads : a.toFloat = x)
    (between : (a.value ≤ b.value ∧ b.value ≤ Double.value (place x)) ∨
      (Double.value (place x) ≤ b.value ∧ b.value ≤ a.value)) : b.toFloat = x := by
  rw [toFloat_eq_iff positive] at reads
  have itself := nearest_value finite.le
  have rounded := b.nearest_toFloat
  have same : b.toFloat.toBits.toNat = place x := by
    rcases between with ⟨first, second⟩ | ⟨first, second⟩
    · exact Nat.le_antisymm (rounded.mono itself second) (reads.mono rounded first)
    · exact Nat.le_antisymm (rounded.mono reads second) (itself.mono rounded first)
  rw [toFloat_eq_iff positive, ← same]
  exact rounded

/-- Where a multiple of a power of ten reads as a double, one of the two around the double does. -/
theorem exists_around (around : Around (Double.value (place x)) e ds) (reads : toFloat ⟨c, e⟩ = x) :
    ∃ d ∈ ds, d.toFloat = x := by
  obtain ⟨low, lower, upper, order⟩ := around
  have grid := ten_zpow_pos e
  have both : (⟨low, e⟩ : Decimal) ∈ ds ∧ (⟨low + 1, e⟩ : Decimal) ∈ ds := by
    rcases order with ⟨rfl, -⟩ | ⟨rfl, -⟩ <;> simp
  rcases Nat.lt_or_ge low c with above | below
  · refine ⟨_, both.2, toFloat_between positive finite reads (.inr ?_)⟩
    have le : ((low + 1 : Nat) : ℚ) ≤ c := by exact_mod_cast above
    simp only [value]
    push_cast at le ⊢
    exact ⟨upper.le, by gcongr⟩
  · refine ⟨_, both.1, toFloat_between positive finite reads (.inl ?_)⟩
    have le : (c : ℚ) ≤ low := by exact_mod_cast below
    simp only [value]
    exact ⟨by gcongr, lower⟩

end

/-! The search. -/

/-- The search for the shortest decimal of a double with `k` places before its point: `grids i` holds its neighbours of
`i + 1` digits. -/
structure Search (x : Float) (k : Int) (grids : Nat → List Decimal) : Prop where
  lower : (10 : ℚ) ^ (k - 1) ≤ Double.value (place x)
  upper : Double.value (place x) < 10 ^ k
  around : ∀ i : Nat, Around (Double.value (place x)) (k - (i + 1)) (grids i)
  shortest : shortest x =
    trim 17 (((List.range 17).findSome? fun i => (grids i).find? (·.toFloat = x)).getD ((grids 16).headD ⟨0, 0⟩))

private theorem le_value (nonzero : 0 < n) : (10 : ℚ) ^ (-340 : Int) ≤ Double.value n := by
  have powers : 2 ^ 1074 ≤ 10 ^ 340 := by decide +kernel
  have bound : (2 : ℚ) ^ (1074 : Int) ≤ 10 ^ (340 : Int) := by exact_mod_cast powers
  have least : (2 : ℚ) ^ (-1074 : Int) ≤ Double.value n := by
    rw [← value_one]
    exact strictMono_value.monotone nonzero
  apply le_trans _ least
  rw [zpow_neg, zpow_neg]
  exact inv_anti₀ (two_zpow_pos _) bound

private theorem exists_search {x : Float} (nonzero : 0 < place x) : ∃ k grids, Search x k grids := by
  obtain ⟨denominator, value⟩ := quotient_spec x
  have least := le_value nonzero
  rw [← value] at least
  obtain ⟨lower, upper⟩ := magnitude_spec denominator least
  refine ⟨magnitude (quotient x).1 (quotient x).2,
    fun i => neighbours (quotient x).1 (quotient x).2 (magnitude (quotient x).1 (quotient x).2 - Int.ofNat (i + 1)), ?_⟩
  rw [value] at lower upper
  refine ⟨lower, upper, fun i => ?_, rfl⟩
  rw [← value]
  exact around_neighbours denominator _

section

variable {x : Float} (positive : sign x = .positive) (nonzero : 0 < place x) (finite : place x < infinite)
  {k : Int} {grids : Nat → List Decimal} (search : Search x k grids)
include positive nonzero finite search

/-- Seventeen digits always suffice. -/
theorem Search.seventeen : ∃ d ∈ grids 16, d.toFloat = x := by
  obtain ⟨c, lower, upper, order⟩ := search.around 16
  have fine : (10 : ℚ) ^ (k - (16 + 1)) * 10 ^ 16 ≤ Double.value (place x) := by
    rw [← zpow_natCast, ← zpow_add₀ (by norm_num)]
    convert search.lower using 2
    push_cast
    ring
  have nearest : ∀ d : Decimal, 2 * |d.value - Double.value (place x)| ≤ 10 ^ (k - ((16 : Nat) + 1) : Int) →
      d.toFloat = x := by
    intro d near
    rw [toFloat_eq_iff positive]
    exact nearest_of_grid nonzero finite near fine
  rcases order with ⟨grid, near⟩ | ⟨grid, near⟩
  · rw [grid]
    refine ⟨_, List.mem_cons_self, nearest _ ?_⟩
    rw [abs_of_nonpos (by simp only [Decimal.value]; linarith)]
    simp only [Decimal.value]
    linarith
  · rw [grid]
    refine ⟨_, List.mem_cons_self, nearest _ ?_⟩
    have next : Decimal.value ⟨c + 1, k - ((16 : Nat) + 1)⟩ = (c + 1) * 10 ^ (k - ((16 : Nat) + 1) : Int) := by
      simp only [Decimal.value]
      push_cast
      rfl
    rw [next, abs_of_pos (by linarith)]
    linarith

/-- The search finds a decimal that reads back, on a grid before which there is none. -/
theorem Search.found : ∃ i < 17, ∃ d ∈ grids i, d.toFloat = x ∧ Decimal.shortest x = trim 17 d ∧
    ∀ j < i, ∀ d ∈ grids j, d.toFloat ≠ x := by
  have shortest := search.shortest
  cases result : (List.range 17).findSome? fun i => (grids i).find? (·.toFloat = x) with
  | none =>
    obtain ⟨d, among, reads⟩ := search.seventeen positive nonzero finite
    have nothing := List.findSome?_eq_none_iff.1 result 16 (List.mem_range.2 (by decide))
    exact absurd (decide_eq_true reads) (List.find?_eq_none.1 nothing d among)
  | some d =>
    obtain ⟨before, i, after, split, hit, misses⟩ := List.findSome?_eq_some_iff.1 result
    have inside : ∀ j, j < 17 ↔ j ∈ before ∨ j = i ∨ j ∈ after := by
      intro j
      rw [← List.mem_range, split, List.mem_append, List.mem_cons]
    have sorted : ∀ j ∈ after, i < j := by
      have pairs := @List.pairwise_lt_range 17
      rw [split] at pairs
      exact (List.pairwise_cons.1 (List.pairwise_append.1 pairs).2.1).1
    have reads := List.find?_some hit
    rw [result, Option.getD_some] at shortest
    refine ⟨i, (inside i).2 (.inr (.inl rfl)), d, List.mem_of_find?_eq_some hit, decide_eq_true_iff.1 reads, shortest, ?_⟩
    intro j less d among
    have early : j ∈ before := by
      rcases (inside j).1 (less.trans ((inside i).2 (.inr (.inl rfl)))) with early | same | late
      · exact early
      · exact absurd same less.ne
      · exact absurd (sorted j late) less.not_gt
    exact fun reads => List.find?_eq_none.1 (misses j early) d among (decide_eq_true reads)

omit positive nonzero finite in
/-- A neighbour of few digits is at most the next power of ten. -/
theorem Search.coefficient_le (among : d ∈ grids i) : d.coefficient ≤ 10 ^ (i + 1) := by
  obtain ⟨c, lower, -, order⟩ := search.around i
  have small : c < 10 ^ (i + 1) := by
    have less := lower.trans_lt search.upper
    have power : (10 : ℚ) ^ k = (10 ^ (i + 1) : Nat) * 10 ^ (k - (i + 1) : Int) := by
      push_cast
      rw [← zpow_natCast, ← zpow_add₀ (by norm_num)]
      congr 1
      push_cast
      ring
    rw [power] at less
    exact_mod_cast lt_of_mul_lt_mul_right less (ten_zpow_pos _).le
  rcases order with ⟨grid, -⟩ | ⟨grid, -⟩
  all_goals
    rw [grid] at among
    simp only [List.mem_cons, List.not_mem_nil, or_false] at among
    rcases among with rfl | rfl <;> simp only <;> omega

omit positive nonzero finite in
/-- What is found on a grid has no more digits than the grid once its zeros at the end are removed. -/
theorem Search.length_trim (few : i < 17) (among : d ∈ grids i) :
    (Text.ofNat (trim 17 d).coefficient).length ≤ i + 1 := by
  rw [Text.length_ofNat_le_iff (Nat.succ_pos i)]
  rcases Nat.lt_or_eq_of_le (search.coefficient_le among) with less | power
  · exact (trim_spec 17 d).2.1.trans_lt less
  · obtain ⟨c, e⟩ := d
    simp only at power
    rw [power, trim_pow few]
    exact Nat.one_lt_pow (Nat.succ_ne_zero i) (by decide)

omit nonzero in
/-- Where a decimal of `p` digits reads back, a multiple of the step of the grid of `p` digits does. -/
theorem Search.exists_multiple {d : Decimal} {p : Nat} (reads : d.toFloat = x) (digits : d.coefficient < 10 ^ (p + 1)) :
    ∃ c, toFloat ⟨c, k - (p + 1)⟩ = x := by
  rcases lt_or_ge d.value (10 ^ (k - 1)) with small | large
  · -- the least decimal of that many digits is in between
    refine ⟨10 ^ p, toFloat_between positive finite reads (.inl ?_)⟩
    have power : value ⟨10 ^ p, k - (p + 1)⟩ = 10 ^ (k - 1) := by
      rw [← Nat.one_mul (10 ^ p), value_shift, value, Nat.cast_one, one_mul]
      congr 1
      ring
    rw [power]
    exact ⟨small.le, search.lower⟩
  · -- the decimal is such a multiple itself
    have coarse : k - (p + 1) ≤ d.exponent := by
      have bound : (d.coefficient : ℚ) < 10 ^ ((p + 1 : Nat) : Int) := by exact_mod_cast digits
      have less : (10 : ℚ) ^ (k - 1) < 10 ^ ((p + 1 : Nat) + d.exponent) := by
        rw [zpow_add₀ (by norm_num)]
        have := ten_zpow_pos d.exponent
        exact large.trans_lt (by rw [value]; gcongr)
      have order := (zpow_lt_zpow_iff_right₀ (by norm_num : (1 : ℚ) < 10)).1 less
      omega
    obtain ⟨t, extra⟩ : ∃ t : Nat, d.exponent = k - (p + 1) + t := ⟨(d.exponent - (k - (p + 1))).toNat, by omega⟩
    refine ⟨d.coefficient * 10 ^ t, (toFloat_eq_of_value_eq ?_).trans reads⟩
    rw [value_shift, ← extra]

/-- A decimal with fewer digits would have been found on an earlier grid. -/
theorem Search.length_le {d : Decimal} (reads : d.toFloat = x) :
    (Text.ofNat (Decimal.shortest x).coefficient).length ≤ (Text.ofNat d.coefficient).length := by
  obtain ⟨i, few, found, among, -, shortest, misses⟩ := search.found positive nonzero finite
  rw [shortest]
  apply (search.length_trim few among).trans
  apply Nat.le_of_not_lt
  intro shorter
  obtain ⟨p, length⟩ : ∃ p, (Text.ofNat d.coefficient).length = p + 1 :=
    ⟨_, (Nat.succ_pred_eq_of_pos (Text.length_ofNat_pos _)).symm⟩
  have digits := Text.lt_pow_length d.coefficient
  rw [length] at shorter digits
  obtain ⟨c, multiple⟩ := search.exists_multiple positive finite reads digits
  obtain ⟨d', early, reads'⟩ := exists_around positive finite (search.around p) multiple
  exact misses p (by omega) d' early reads'

end

/-- A decimal that is not read as zero is not zero. -/
theorem coefficient_pos {d : Decimal} (positive : sign d.toFloat = .positive) (nonzero : 0 < place d.toFloat) :
    0 < d.coefficient := by
  apply Nat.pos_of_ne_zero
  intro zero
  have rounded := (toFloat_eq_iff positive d).1 rfl
  have nothing : d.value = Double.value 0 := by rw [value, zero, value_zero, Nat.cast_zero, zero_mul]
  rw [nothing] at rounded
  exact nonzero.ne (Nearest.unique (nearest_value (Nat.zero_le _)) rounded)

/-- The shortest decimal of a double reads back as the double, and no decimal that does has fewer digits. -/
theorem shortest_spec {x : Float} (positive : sign x = .positive) (nonzero : 0 < place x) (finite : place x < infinite) :
    (shortest x).toFloat = x ∧ 0 < (shortest x).coefficient ∧
      ∀ d : Decimal, d.toFloat = x →
        (Text.ofNat (shortest x).coefficient).length ≤ (Text.ofNat d.coefficient).length := by
  obtain ⟨k, grids, search⟩ := exists_search nonzero
  obtain ⟨i, -, d, -, reads, shortest, -⟩ := search.found positive nonzero finite
  refine ⟨?_, ?_, fun d => search.length_le positive nonzero finite⟩
  · rw [shortest, toFloat_eq_of_value_eq (trim_spec 17 d).1, reads]
  · subst reads
    rw [shortest]
    exact (trim_spec 17 d).2.2 (coefficient_pos positive nonzero)

end Decimal
end Lox
