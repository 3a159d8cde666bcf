import Lox.Proofs.Number.Doubles
import Lox.Proofs.Number.Text

/-! A double is its sign and its place. What the float operations see of a double, its mantissa and exponent or that it is
zero, infinite or not a number, follows from the place; negation changes the sign only, and doubles that are not
negative are ordered like their places. -/
namespace Lox.Double

open Float.Model UnpackedFloat

/-- The place of a double, whatever its sign. -/
def place (x : Float) : Nat := x.toBits.toNat % 2 ^ 63

def sign (x : Float) : Sign := if Number.isNegative x then .negative else .positive

/-- What the sign adds to the bits. -/
def signBit : Sign → Nat
  | .negative => 2 ^ 63
  | .positive => 0

theorem toNat_toBits (x : Float) : x.toBits.toNat = signBit (sign x) + place x := by
  have bound := x.toBits.toNat_lt
  have power : Nat.pow 2 63 = 2 ^ 63 := rfl
  rw [sign, place, Number.isNegative, power]
  by_cases negative : 2 ^ 63 ≤ x.toBits.toNat
  · rw [if_pos (decide_eq_true negative), signBit]
    omega
  · rw [if_neg (by rw [decide_eq_false negative]; decide), signBit]
    omega

private theorem signBit_injective : Function.Injective signBit := by
  rintro (_ | _) (_ | _) same <;> first | rfl | cases same

theorem place_lt (x : Float) : place x < 2 ^ 63 := Nat.mod_lt _ (by decide)

/-- The sign and the place can be read off the bits. -/
theorem eq_of_toNat_toBits (bits : x.toBits.toNat = signBit s + n) (small : n < 2 ^ 63) : sign x = s ∧ place x = n := by
  rw [toNat_toBits] at bits
  have bound := place_lt x
  cases known : sign x <;> cases s <;> rw [known] at bits <;> simp only [signBit] at bits
  · exact ⟨rfl, by omega⟩
  · omega
  · omega
  · exact ⟨rfl, by omega⟩

theorem eq_of_place (signs : sign x = sign y) (places : place x = place y) : x = y := by
  apply Float.toBits_inj.1
  apply UInt64.toNat_inj.1
  rw [toNat_toBits, toNat_toBits, signs, places]

/-! Packing. -/

private theorem toNat_packComponents (s : Sign) (e : BitVec 11) (m : BitVec 52) :
    (packComponents .binary64 s e m).toNat = signBit s + e.toNat * 2 ^ 52 + m.toNat := by
  have field := e.isLt
  have fraction := m.isLt
  have inner : (s.toBitVec ++ e).toNat = s.toBitVec.toNat * 2 ^ 11 + e.toNat := by
    rw [BitVec.toNat_append, ← Nat.shiftLeft_add_eq_or_of_lt field, Nat.shiftLeft_eq]
  have outer : (s.toBitVec ++ e ++ m).toNat = (s.toBitVec ++ e).toNat * 2 ^ 52 + m.toNat := by
    rw [BitVec.toNat_append, ← Nat.shiftLeft_add_eq_or_of_lt fraction, Nat.shiftLeft_eq]
  have whole : (packComponents .binary64 s e m).toNat = (s.toBitVec ++ e ++ m).toNat := rfl
  rw [whole, outer, inner]
  cases s with
  | negative =>
    have one : Sign.negative.toBitVec.toNat = 1 := rfl
    rw [one, signBit]
    omega
  | positive =>
    have zero : Sign.positive.toBitVec.toNat = 0 := rfl
    rw [zero, signBit]
    omega

theorem toNat_packedInfinity (s : Sign) : (packedInfinity .binary64 s).toNat = signBit s + infinite := by
  cases s <;> rfl

theorem toNat_packedZero (s : Sign) : (packedZero .binary64 s).toNat = signBit s := by
  cases s <;> rfl

private theorem exponentBias_binary64 : Format.binary64.exponentBias = 1023 := rfl

/-- Packing puts a finite double in its place, and one that is too large in that of infinity. -/
theorem toNat_pack_finite (spaced : Spaced n a r) (inside : r < 2 ^ 53) (positive : 0 < r) (s : Sign) :
    (pack .binary64 (.finite s r (a - 1074) positive)).toNat = signBit s + min n infinite := by
  obtain ⟨rfl, aligned, -⟩ := spaced
  have biased : ((a - 1074 : Int) + Format.binary64.exponentBias + (52 : Nat)).toNat = a + 1 := by
    rw [exponentBias_binary64]
    omega
  have bits : Format.binary64.mantissaBits = 53 := rfl
  rw [UnpackedFloat.pack]
  simp only [biased, bits]
  by_cases large : 2046 ≤ a
  · rw [if_pos (by omega), toNat_packedInfinity]
    simp only [infinite]
    omega
  · rw [if_neg (by omega)]
    by_cases normal : 2 ^ 52 ≤ r
    · have length : r.log2 = 52 := (Nat.log2_eq_iff (by omega)).2 ⟨normal, inside⟩
      rw [if_pos (by rw [length]), toNat_packComponents, BitVec.toNat_ofNat, BitVec.toNat_ofNat]
      simp only [infinite]
      omega
    · have length : r.log2 < 52 := (Nat.log2_lt (by omega)).2 (by omega)
      rw [if_neg (by omega), toNat_packComponents, BitVec.toNat_ofNat]
      simp only [infinite, BitVec.toNat_ofNat]
      omega

/-! Unpacking. -/

/-- What can be unpacked from a double. -/
inductive Unpacked (x : Float) : UnpackedFloat → Prop where
  | zero (least : place x = 0) : Unpacked x (.zero (sign x))
  | finite (spaced : Spaced (place x) a r) (inside : r < 2 ^ 53) (positive : 0 < r) (finite : place x < infinite) :
    Unpacked x (.finite (sign x) r (a - 1074) positive)
  | infinity (last : place x = infinite) : Unpacked x (.infinity (sign x))
  | notANumber (beyond : infinite < place x) : Unpacked x .notANumber

theorem toNat_unpackMantissa (bits : UInt64) : (@unpackMantissa .binary64 bits.toBitVec).toNat = bits.toNat % 2 ^ 52 := by
  rw [unpackMantissa_def, BitVec.extractLsb'_toNat]
  rfl

theorem toNat_unpackExponent (bits : UInt64) :
    (@unpackExponent .binary64 bits.toBitVec).toNat = bits.toNat / 2 ^ 52 % 2 ^ 11 := by
  rw [unpackExponent_def, BitVec.extractLsb'_toNat, Nat.shiftRight_eq_div_pow]
  rfl

section

variable (x : Float)

private theorem toNat_fraction : (@unpackMantissa .binary64 x.toBits.toBitVec).toNat = place x % 2 ^ 52 := by
  rw [toNat_unpackMantissa, place]
  omega

private theorem toNat_field : (@unpackExponent .binary64 x.toBits.toBitVec).toNat = place x / 2 ^ 52 := by
  rw [toNat_unpackExponent, place]
  omega

private theorem ofBitVec_unpackSign : Sign.ofBitVec (@unpackSign .binary64 x.toBits.toBitVec) = sign x := by
  have whole := congrArg BitVec.toNat
    (@packComponents_unpackSign_unpackExponent_unpackMantissa .binary64 x.toBits.toBitVec)
  have bits : x.toBits.toBitVec.toNat = x.toBits.toNat := rfl
  rw [toNat_packComponents, toNat_fraction, toNat_field, bits, toNat_toBits] at whole
  apply signBit_injective
  omega

/-- A finite double is known by its mantissa and its exponent. -/
theorem Unpacked.of_mantissa {m : Nat} {e : Int} (positive : 0 < m) (spaced : Spaced (place x) a m) (inside : m < 2 ^ 53)
    (finite : place x < infinite) (exponent : e = a - 1074) : Unpacked x (.finite (sign x) m e positive) := by
  subst exponent
  exact .finite spaced inside positive finite

theorem unpacked : Unpacked x x.toModel.unpack := by
  have field := toNat_field x
  have fraction := toNat_fraction x
  have bound := place_lt x
  have ones : @unpackExponent .binary64 x.toBits.toBitVec = -1#11 ↔ place x / 2 ^ 52 = 2047 := by
    rw [← BitVec.toNat_inj, field]
    rfl
  have subnormal : @unpackExponent .binary64 x.toBits.toBitVec = 0#11 ↔ place x / 2 ^ 52 = 0 := by
    rw [← BitVec.toNat_inj, field]
    rfl
  have whole : @unpackMantissa .binary64 x.toBits.toBitVec = 0#52 ↔ place x % 2 ^ 52 = 0 := by
    rw [← BitVec.toNat_inj, fraction]
    rfl
  have bits : x.toModel.unpack = UnpackedFloat.unpack .binary64 x.toBits.toBitVec := rfl
  rw [bits, UnpackedFloat.unpack]
  simp only [ofBitVec_unpackSign]
  by_cases infinity : place x / 2 ^ 52 = 2047
  · rw [if_pos (ones.2 infinity)]
    by_cases exact : place x % 2 ^ 52 = 0
    · rw [if_pos (whole.2 exact)]
      exact .infinity (by rw [infinite]; omega)
    · rw [if_neg (whole.not.2 exact)]
      exact .notANumber (by rw [infinite]; omega)
  · rw [if_neg (ones.not.2 infinity)]
    have finite : place x < infinite := by rw [infinite]; omega
    by_cases small : place x / 2 ^ 52 = 0
    · rw [if_pos (subnormal.2 small)]
      by_cases exact : place x % 2 ^ 52 = 0
      · rw [dif_pos (whole.2 exact)]
        exact .zero (by omega)
      · rw [dif_neg (whole.not.2 exact)]
        have spaced : Spaced (place x) 0 (@unpackMantissa .binary64 x.toBits.toBitVec).toNat :=
          ⟨by omega, .inl rfl, by omega⟩
        exact .of_mantissa _ _ spaced (by omega) finite (by rw [field, small]; rfl)
    · rw [if_neg (subnormal.not.2 small)]
      have implicit : (1#1 ++ @unpackMantissa .binary64 x.toBits.toBitVec).toNat = 2 ^ 52 + place x % 2 ^ 52 := by
        rw [BitVec.toNat_append, ← Nat.shiftLeft_add_eq_or_of_lt (BitVec.isLt _), fraction]
        rfl
      have spaced : Spaced (place x) (place x / 2 ^ 52 - 1) (1#1 ++ @unpackMantissa .binary64 x.toBits.toBitVec).toNat :=
        ⟨by omega, .inr (by omega), by omega⟩
      apply Unpacked.of_mantissa _ _ spaced (by omega) finite
      rw [field, exponentBias_binary64]
      omega

theorem isZero_iff : Number.isZero x = true ↔ place x = 0 := decide_eq_true_iff

theorem isNaN_iff : x.isNaN = true ↔ infinite < place x := by
  have shape := unpacked x
  have seen : x.isNaN = x.toModel.unpack.isNaN := rfl
  rw [seen]
  generalize x.toModel.unpack = u at shape
  cases shape with
  | zero least => simp [UnpackedFloat.isNaN, least]
  | finite _ _ _ finite => simp [UnpackedFloat.isNaN, finite.le]
  | infinity last => simp [UnpackedFloat.isNaN, last]
  | notANumber beyond => simp [UnpackedFloat.isNaN, beyond]

/-- Whatever is not a number is one double. -/
theorem eq_nan (beyond : infinite < place x) : x = Float.nan := by
  rw [← isNaN_iff, Float.isNaN_eq_decide_eq_nan, decide_eq_true_iff] at beyond
  exact beyond

theorem isInf_iff : x.isInf = true ↔ place x = infinite := by
  have shape := unpacked x
  have seen : x.isInf = x.toModel.unpack.isInf := rfl
  rw [seen]
  generalize x.toModel.unpack = u at shape
  cases shape with
  | zero least => simp [UnpackedFloat.isInf, least, infinite]
  | finite _ _ _ finite => simp [UnpackedFloat.isInf, finite.ne]
  | infinity last => simp [UnpackedFloat.isInf, last]
  | notANumber beyond => simp [UnpackedFloat.isInf, beyond.ne']

theorem isFinite_iff : x.isFinite = true ↔ place x < infinite := by
  have shape := unpacked x
  have seen : x.isFinite = x.toModel.unpack.isFinite := rfl
  rw [seen]
  generalize x.toModel.unpack = u at shape
  cases shape with
  | zero least => simp [UnpackedFloat.isFinite, least, infinite]
  | finite _ _ _ finite => simp [UnpackedFloat.isFinite, finite]
  | infinity last => simp [UnpackedFloat.isFinite, last]
  | notANumber beyond => simp [UnpackedFloat.isFinite, beyond.le]

variable {x}

theorem zero_spec : sign (0 : Float) = .positive ∧ place (0 : Float) = 0 := ⟨rfl, by decide +kernel⟩

/-! Operations on the sign. -/

private theorem toNat_pack_unpack_neg (number : place x ≤ infinite) :
    (pack .binary64 x.toModel.unpack.neg).toNat = signBit (-sign x) + place x := by
  have shape := unpacked x
  generalize x.toModel.unpack = u at shape
  cases shape with
  | zero least => rw [least, UnpackedFloat.neg, UnpackedFloat.pack, toNat_packedZero, Nat.add_zero]
  | finite spaced inside positive finite =>
    rw [UnpackedFloat.neg, toNat_pack_finite spaced inside, Nat.min_eq_left number]
  | infinity last => rw [last, UnpackedFloat.neg, UnpackedFloat.pack, toNat_packedInfinity]
  | notANumber beyond => exact absurd number beyond.not_ge

theorem neg_spec (number : place x ≤ infinite) : sign (-x) = -sign x ∧ place (-x) = place x := by
  apply eq_of_toNat_toBits _ (place_lt x)
  rw [← toNat_pack_unpack_neg number]
  rfl

theorem abs_spec (number : place x ≤ infinite) : sign x.abs = .positive ∧ place x.abs = place x := by
  apply eq_of_toNat_toBits _ (place_lt x)
  have bits : x.abs.toBits.toNat = (pack .binary64 x.toModel.unpack.abs).toNat := rfl
  rw [bits]
  have shape := unpacked x
  generalize x.toModel.unpack = u at shape
  cases shape with
  | zero least => rw [least, UnpackedFloat.abs, UnpackedFloat.pack, toNat_packedZero, Nat.add_zero]
  | finite spaced inside positive finite =>
    rw [UnpackedFloat.abs, toNat_pack_finite spaced inside, Nat.min_eq_left number]
  | infinity last => rw [last, UnpackedFloat.abs, UnpackedFloat.pack, toNat_packedInfinity]
  | notANumber beyond => exact absurd number beyond.not_ge

/-! Order. -/

private theorem compare_spaced (first : Spaced n a r) (second : Spaced m b t) (insideR : r < 2 ^ 53)
    (insideT : t < 2 ^ 53) :
    (compare (a - 1074 : Int) (b - 1074)).then (compare r t) = compare n m := by
  obtain ⟨rfl, alignedR, -⟩ := first
  obtain ⟨rfl, alignedT, -⟩ := second
  rcases Nat.lt_trichotomy a b with less | rfl | greater
  · rw [compare_lt_iff_lt.2 (by omega : (a - 1074 : Int) < b - 1074), Ordering.lt_then]
    exact (compare_lt_iff_lt.2 (by omega)).symm
  · rw [compare_eq_iff_eq.2 rfl, Ordering.eq_then]
    rcases Nat.lt_trichotomy r t with less | rfl | greater
    · rw [compare_lt_iff_lt.2 less, compare_lt_iff_lt.2 (by omega)]
    · rw [compare_eq_iff_eq.2 rfl, compare_eq_iff_eq.2 rfl]
    · rw [compare_gt_iff_gt.2 greater, compare_gt_iff_gt.2 (by omega)]
  · rw [compare_gt_iff_gt.2 (by omega : (a - 1074 : Int) > b - 1074), Ordering.gt_then]
    exact (compare_gt_iff_gt.2 (by omega)).symm

private theorem compare_unpack {y : Float} (positive : sign x = .positive) (positive' : sign y = .positive)
    (number : place x ≤ infinite) (number' : place y ≤ infinite) :
    x.toModel.unpack.compare y.toModel.unpack = some (compare (place x) (place y)) := by
  have shape := unpacked x
  have shape' := unpacked y
  generalize x.toModel.unpack = u at shape
  generalize y.toModel.unpack = v at shape'
  have reached : 0 < infinite := by decide
  cases shape with
  | notANumber beyond => exact absurd number beyond.not_ge
  | zero least =>
    cases shape' with
    | notANumber beyond => exact absurd number' beyond.not_ge
    | zero least' => rw [least, least']; rfl
    | finite spaced inside pos finite =>
      rw [positive, positive', least, compare_lt_iff_lt.2 (by rw [spaced.place]; omega)]
      rfl
    | infinity last =>
      rw [positive, positive', least, last, compare_lt_iff_lt.2 reached]
      rfl
  | finite spaced inside pos finite =>
    cases shape' with
    | notANumber beyond => exact absurd number' beyond.not_ge
    | zero least =>
      rw [positive, positive', least, compare_gt_iff_gt.2 (by rw [spaced.place]; omega)]
      rfl
    | finite spaced' inside' pos' finite' =>
      rw [positive, positive', ← compare_spaced spaced spaced' inside inside']
      rfl
    | infinity last =>
      rw [positive, positive', last, compare_lt_iff_lt.2 finite]
      rfl
  | infinity last =>
    cases shape' with
    | notANumber beyond => exact absurd number' beyond.not_ge
    | zero least =>
      rw [positive, positive', least, last, compare_gt_iff_gt.2 reached]
      rfl
    | finite spaced inside pos finite =>
      rw [positive, positive', last, compare_gt_iff_gt.2 finite]
      rfl
    | infinity last' =>
      rw [positive, positive', last, last', compare_eq_iff_eq.2 rfl]
      rfl

theorem le_iff {y : Float} (positive : sign x = .positive) (positive' : sign y = .positive)
    (number : place x ≤ infinite) (number' : place y ≤ infinite) : x ≤ y ↔ place x ≤ place y := by
  have seen : x ≤ y ↔ (x.toModel.unpack.compare y.toModel.unpack).any (·.isLE) = true := decide_eq_true_iff
  rw [seen, compare_unpack positive positive' number number', Option.any_some, Nat.isLE_compare]

theorem lt_iff {y : Float} (positive : sign x = .positive) (positive' : sign y = .positive)
    (number : place x ≤ infinite) (number' : place y ≤ infinite) : x < y ↔ place x < place y := by
  have seen : x < y ↔ (x.toModel.unpack.compare y.toModel.unpack == some .lt) = true := decide_eq_true_iff
  rw [seen, compare_unpack positive positive' number number', beq_iff_eq, Option.some.injEq, compare_lt_iff_lt]

end

end Lox.Double
