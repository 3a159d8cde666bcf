import Lox.Proofs.Number.Packing
import Lox.Value

/-! Equality of values. Equal values are identical or two zeros, so equality is an equivalence, keeps kinds apart and
respects truth. On numbers it is the comparison of doubles, which is not reflexive, with the one change that doubles
which are not numbers are equal to each other, whatever their bits. -/
namespace Lox

namespace Double

open Float.Model UnpackedFloat

/-! Bits of doubles. -/

/-- Bits of something that is not a number. -/
def NoNumberBits (bits : UInt64) : Prop := infinite < bits.toNat % 2 ^ 63

/-- Bits of a zero, with either sign. -/
def ZeroBits (bits : UInt64) : Prop := bits.toNat % 2 ^ 63 = 0

private theorem isNaNBits_iff (bits : UInt64) : @isNaNBits .binary64 bits.toBitVec = true ↔ NoNumberBits bits := by
  have bound := bits.toNat_lt
  have ones : @unpackExponent .binary64 bits.toBitVec = -1#11 ↔ bits.toNat / 2 ^ 52 % 2 ^ 11 = 2047 := by
    rw [← BitVec.toNat_inj, toNat_unpackExponent]
    rfl
  have whole : @unpackMantissa .binary64 bits.toBitVec = 0#52 ↔ bits.toNat % 2 ^ 52 = 0 := by
    rw [← BitVec.toNat_inj, toNat_unpackMantissa]
    rfl
  have seen : @isNaNBits .binary64 bits.toBitVec = true ↔ @unpackExponent .binary64 bits.toBitVec = -1#11 ∧
      @unpackMantissa .binary64 bits.toBitVec ≠ 0#52 := decide_eq_true_iff
  rw [seen, ones, ne_eq, whole, NoNumberBits, infinite]
  omega

/-- Bits of a number stay as they are. -/
theorem toBits_ofBits {bits : UInt64} (number : ¬ NoNumberBits bits) : (Float.ofBits bits).toBits = bits := by
  rw [← isNaNBits_iff] at number
  apply UInt64.toBitVec_inj.1
  have packed := @pack_unpack .binary64 bits.toBitVec
  rw [if_neg number] at packed
  exact packed (by decide)

/-- All other bits are the same double. -/
theorem ofBits_eq_nan {bits : UInt64} (other : NoNumberBits bits) : Float.ofBits bits = Float.nan := by
  rw [← isNaNBits_iff] at other
  apply Float.toBits_inj.1
  apply UInt64.toBitVec_inj.1
  have packed := @pack_unpack .binary64 bits.toBitVec
  rw [if_pos other] at packed
  exact packed (by decide)

private theorem noNumberBits_nan : NoNumberBits Float.nan.toBits := by
  rw [NoNumberBits]
  decide +kernel

private theorem ofBits_ne_nan {bits : UInt64} (number : ¬ NoNumberBits bits) : Float.ofBits bits ≠ Float.nan := by
  intro same
  have kept := toBits_ofBits number
  rw [same] at kept
  exact number (kept ▸ noNumberBits_nan)

private theorem ofBits_eq_iff {m n : UInt64} :
    Float.ofBits m = Float.ofBits n ↔ m = n ∨ (NoNumberBits m ∧ NoNumberBits n) := by
  constructor
  · intro same
    by_cases other : NoNumberBits m <;> by_cases other' : NoNumberBits n
    · exact .inr ⟨other, other'⟩
    · exact absurd (same.symm.trans (ofBits_eq_nan other)) (ofBits_ne_nan other')
    · exact absurd (same.trans (ofBits_eq_nan other')) (ofBits_ne_nan other)
    · have kept := toBits_ofBits other
      rw [same, toBits_ofBits other'] at kept
      exact .inl kept.symm
  · rintro (rfl | ⟨other, other'⟩)
    · rfl
    · rw [ofBits_eq_nan other, ofBits_eq_nan other']

private theorem isZero_ofBits (bits : UInt64) : Number.isZero (Float.ofBits bits) = true ↔ ZeroBits bits := by
  rw [isZero_iff, place]
  by_cases other : NoNumberBits bits
  · rw [ofBits_eq_nan other]
    have beyond : infinite < bits.toNat % 2 ^ 63 := other
    have beyond' : infinite < Float.nan.toBits.toNat % 2 ^ 63 := noNumberBits_nan
    rw [ZeroBits]
    omega
  · rw [toBits_ofBits other, ZeroBits]

end Double

namespace Number

open Double

private theorem same_iff {x y : Float} : same x y = true ↔ x = y ∨ (isZero x = true ∧ isZero y = true) := by
  rw [same, Bool.or_eq_true, Bool.and_eq_true, decide_eq_true_iff]

private theorem same_ofBits {m n : UInt64} : same (.ofBits m) (.ofBits n) = true ↔
    m = n ∨ (NoNumberBits m ∧ NoNumberBits n) ∨ (ZeroBits m ∧ ZeroBits n) := by
  rw [same_iff, ofBits_eq_iff, isZero_ofBits, isZero_ofBits, or_assoc]

private theorem isZero_iff_eq {x : Float} : isZero x = true ↔ x = 0 ∨ x = -0 := by
  have zero := zero_spec
  obtain ⟨signs, places⟩ := neg_spec (x := 0) (zero.2 ▸ Nat.zero_le _)
  rw [zero.1] at signs
  rw [zero.2] at places
  rw [isZero_iff]
  constructor
  · intro least
    cases known : sign x with
    | positive => exact .inl (eq_of_place (known.trans zero.1.symm) (least.trans zero.2.symm))
    | negative => exact .inr (eq_of_place (known.trans signs.symm) (least.trans places.symm))
  · rintro (rfl | rfl)
    · exact zero.2
    · exact places

/-- Numbers are compared as doubles, except that doubles which are not numbers are the same. -/
theorem same_eq (x y : Float) : same x y = (x == y || (x.isNaN && y.isNaN)) := by
  rw [Bool.eq_iff_iff, Bool.or_eq_true, Bool.and_eq_true, Float.beq_iff_ne_nan_and_eq, Float.isNaN_eq_decide_eq_nan,
    Float.isNaN_eq_decide_eq_nan, decide_eq_true_iff, decide_eq_true_iff, same_iff, isZero_iff_eq, isZero_iff_eq]
  have apart : (0 : Float) ≠ Float.nan ∧ (-0 : Float) ≠ Float.nan := by decide +kernel
  grind

end Number

namespace Value

/-- The kinds of values. -/
inductive Kind
  | nil
  | bool
  | number
  | string
  | native
  | function
  | cls
  | object
  deriving DecidableEq

def kind : Value → Kind
  | nil => .nil
  | bool _ => .bool
  | number _ => .number
  | string _ => .string
  | clock => .native
  | function _ => .function
  | cls _ => .cls
  | object _ => .object

/-- Equal values are identical or two zeros. -/
theorem same_iff {a b : Value} : a.same b = true ↔
    a = b ∨ ∃ x y, a = number x ∧ b = number y ∧ Number.isZero x = true ∧ Number.isZero y = true := by
  fun_cases same a b with
  | case1 x y =>
    rw [Number.same_iff, number.injEq]
    refine or_congr_right ⟨fun zeros => ⟨x, y, rfl, rfl, zeros⟩, ?_⟩
    rintro ⟨_, _, ⟨⟩, ⟨⟩, zeros⟩
    exact zeros
  | case2 _ _ other =>
    rw [decide_eq_true_iff, iff_self_or]
    rintro ⟨x, y, first, second, -⟩
    exact (other x y first second).elim

section

variable {a b c : Value} (equal : a.same b = true)
include equal

private theorem same_symm : b.same a = true := by
  rw [same_iff] at equal ⊢
  obtain rfl | ⟨x, y, rfl, rfl, zero, zero'⟩ := equal
  · exact .inl rfl
  · exact .inr ⟨y, x, rfl, rfl, zero', zero⟩

private theorem same_trans (equal' : b.same c = true) : a.same c = true := by
  have second := same_iff.1 equal'
  obtain rfl | ⟨x, y, rfl, rfl, zero, -⟩ := same_iff.1 equal
  · exact equal'
  · obtain rfl | ⟨_, z, -, rfl, -, zero'⟩ := second
    · exact equal
    · exact same_iff.2 (.inr ⟨x, z, rfl, rfl, zero, zero'⟩)

private theorem kind_of_same : a.kind = b.kind := by
  obtain rfl | ⟨x, y, rfl, rfl, -⟩ := same_iff.1 equal <;> rfl

private theorem truthy_of_same : a.truthy = b.truthy := by
  obtain rfl | ⟨x, y, rfl, rfl, -⟩ := same_iff.1 equal <;> rfl

end

private theorem same_iff_eq {a b : Value} (other : a.kind ≠ .number) : a.same b = true ↔ a = b := by
  rw [same_iff, or_iff_left]
  rintro ⟨x, y, rfl, -⟩
  exact other rfl

/-- Equality of values is an equivalence that keeps kinds apart and that truth respects. Numbers are equal if they are
equal as doubles or both are not numbers, whatever their bits; bit by bit, only two zeros and two doubles that are not
numbers are equal without being the same. All other values are equal only to themselves. -/
theorem equality_is_an_equivalence :
    Equivalence (fun a b : Value => a.same b = true) ∧
    (∀ a b : Value, a.kind ≠ b.kind → a.same b = false) ∧
    (∀ a b : Value, a.same b = true → a.truthy = b.truthy) ∧
    (∀ x y : Float, (number x).same (number y) = (x == y || (x.isNaN && y.isNaN))) ∧
    (∀ m n : UInt64, (number (.ofBits m)).same (number (.ofBits n)) = true ↔
      m = n ∨ (Double.NoNumberBits m ∧ Double.NoNumberBits n) ∨ (Double.ZeroBits m ∧ Double.ZeroBits n)) ∧
    ∀ a b : Value, a.kind ≠ .number → (a.same b = true ↔ a = b) := by
  refine ⟨⟨fun _ => same_iff.2 (.inl rfl), same_symm, same_trans⟩, ?_, fun _ _ => truthy_of_same, Number.same_eq,
    fun _ _ => Number.same_ofBits, fun _ _ => same_iff_eq⟩
  intro a b apart
  rw [← Bool.not_eq_true]
  exact fun equal => apart (kind_of_same equal)

/-- Both zeros, two values that are false, two doubles that are not numbers with different bits, and two functions. -/
theorem equality_is_an_equivalence_at_zeros_and_others :
    ((number 0).same (number (-0)) = true ∧ (number 0).truthy = (number (-0)).truthy) ∧
    (nil.kind ≠ (bool false).kind ∧ nil.same (bool false) = false) ∧
    (Double.NoNumberBits 0x7ff0000000000001 ∧ Double.NoNumberBits 0xfff8000000000000 ∧
      (number (.ofBits 0x7ff0000000000001)).same (number (.ofBits 0xfff8000000000000)) = true) ∧
    ((function 0).kind ≠ .number ∧ ((function 0).same (function 1) = true ↔ function 0 = function 1)) := by
  obtain ⟨-, kinds, truth, -, bits, identity⟩ := equality_is_an_equivalence
  have zeros : (number 0).same (number (-0)) = true := by decide +kernel
  have apart : nil.kind ≠ (bool false).kind := by decide
  have other : Double.NoNumberBits 0x7ff0000000000001 ∧ Double.NoNumberBits 0xfff8000000000000 := by
    rw [Double.NoNumberBits, Double.NoNumberBits]
    decide
  have function : (function 0).kind ≠ .number := by decide
  exact ⟨⟨zeros, truth _ _ zeros⟩, ⟨apart, kinds _ _ apart⟩,
    ⟨other.1, other.2, (bits _ _).2 (.inr (.inl other))⟩, function, identity _ _ function⟩

end Value

end Lox
