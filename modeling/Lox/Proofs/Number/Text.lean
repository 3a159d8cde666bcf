import Lox.Number

/-! What the text of a number is made of. A literal is never read as something that is not a number, and a finite
number is written with digits, points, signs and the letter of the exponent only, starting with a digit or a minus
sign. -/
namespace Lox

theorem Text.isDigit_ofNat (n : Nat) : ∀ b ∈ Text.ofNat n, Text.isDigit b = true := by
  intro b member
  obtain ⟨c, among, rfl⟩ := List.mem_map.1 member
  have digit : c.isDigit = true := Nat.isDigit_of_mem_toDigits (by decide) (by decide) among
  have range : 48 ≤ c.val.toNat ∧ c.val.toNat ≤ 57 := by
    simpa [Char.isDigit, UInt32.le_iff_toNat_le] using digit
  have byte : c.toUInt8.toNat = c.val.toNat := by
    rw [Char.toUInt8, UInt32.toNat_toUInt8]
    omega
  simp only [Text.isDigit, Bool.and_eq_true, decide_eq_true_eq, UInt8.le_iff_toNat_le, byte]
  exact range

theorem Text.ofNat_ne_nil (n : Nat) : Text.ofNat n ≠ [] := by
  intro empty
  exact Nat.toDigits_ne_nil (List.map_eq_nil_iff.1 empty)

namespace Number

open Float.Model UnpackedFloat

/-! Reading a literal. -/

private theorem isNaN_dite {c : Prop} [Decidable c] {f : c → UnpackedFloat} {g : ¬ c → UnpackedFloat}
    (first : ∀ h, (f h).isNaN = false) (second : ∀ h, (g h).isNaN = false) : (dite c f g).isNaN = false := by
  by_cases h : c
  · rw [dif_pos h]
    exact first h
  · rw [dif_neg h]
    exact second h

private theorem isNaN_roundWithAccuracy (spec : Format) (sign : Sign) (mantissa : Nat) (exponent : Int)
    (accuracy : Accuracy) :
    (roundWithAccuracy spec sign mantissa exponent accuracy).isNaN = false := by
  delta roundWithAccuracy
  exact isNaN_dite (fun _ => rfl) (fun _ => rfl)

private theorem isNaN_ofNat (spec : Format) (n : Nat) : (UnpackedFloat.ofNat spec n).isNaN = false := by
  rw [UnpackedFloat.ofNat, UnpackedFloat.ofInt, UnpackedFloat.normalize]
  split
  · exact isNaN_roundWithAccuracy ..
  · rfl
  · exact isNaN_roundWithAccuracy ..

private theorem isNaN_mul_finite (number : f.isNaN = false) (spec : Format) (sign : Sign) (m : Nat) (e : Int)
    (positive : 0 < m) : (UnpackedFloat.mul spec f (.finite sign m e positive)).isNaN = false := by
  cases f with
  | notANumber => cases number
  | infinity | zero => rfl
  | finite => exact isNaN_roundWithAccuracy ..

private theorem isNaN_div_finite (number : f.isNaN = false) (spec : Format) (sign : Sign) (m : Nat) (e : Int)
    (positive : 0 < m) : (UnpackedFloat.div spec f (.finite sign m e positive)).isNaN = false := by
  cases f with
  | notANumber => cases number
  | infinity | zero => rfl
  | finite => exact isNaN_roundWithAccuracy ..

private theorem isNaN_ofScientific (spec : Format) (m : Nat) (e : Int) :
    (UnpackedFloat.ofScientific spec m e).isNaN = false := by
  delta UnpackedFloat.ofScientific
  apply isNaN_dite fun _ => rfl
  intro _
  apply isNaN_dite fun _ => rfl
  intro _
  apply isNaN_dite fun _ => rfl
  intro _
  apply isNaN_dite
  · exact fun _ => isNaN_mul_finite rfl ..
  · exact fun _ => isNaN_div_finite rfl ..

/-- Only all ones in the exponent can be something that is not a number. -/
theorem isNaN_unpack {spec : Format} {b : BitVec spec.numBits}
    (infinite : unpackExponent b = -1#_ → unpackMantissa b = 0#_) : (UnpackedFloat.unpack spec b).isNaN = false := by
  delta UnpackedFloat.unpack
  apply isNaN_dite
  · intro ones
    rw [if_pos (infinite ones)]
    rfl
  · intro _
    apply isNaN_dite
    · exact fun _ => isNaN_dite (fun _ => rfl) (fun _ => rfl)
    · exact fun _ => rfl

/-- Numbers stay numbers in their bits. -/
theorem isNaN_unpack_pack {f : UnpackedFloat} (number : f.isNaN = false) :
    (UnpackedFloat.unpack .binary64 (f.pack .binary64)).isNaN = false := by
  apply isNaN_unpack
  fun_cases UnpackedFloat.pack with
  | case1 => cases number
  | case2 | case4 => simp [packedInfinity]
  | case3 => simp [packedZero]
  | case5 s m e positive bits biased small normal =>
    intro ones
    have exponent := congrArg BitVec.toNat ones
    have range : 2 ^ Format.binary64.exponentBits = 2048 := rfl
    simp only [unpackExponent_packComponents, BitVec.toNat_ofNat, BitVec.toNat_neg, range] at exponent small
    omega
  | case6 => simp

private theorem isNaN_ofModel_pack {f : UnpackedFloat} (number : f.isNaN = false) :
    (Float.ofModel (.pack f)).isNaN = false := isNaN_unpack_pack number

/-- The powers of ten that are there as doubles are finite and not zero. -/
theorem exists_power (e : Nat) (inside : e < Float.exactlyRepresentablePowersOfTen.size) :
    ∃ sign m exponent positive,
      Float.exactlyRepresentablePowersOfTen[e].toModel.unpack = .finite sign m exponent positive := by
  have finite : ∀ x ∈ Float.exactlyRepresentablePowersOfTen,
      (match x.toModel.unpack with | .finite .. => true | _ => false) = true := by decide +kernel
  have this := finite _ (Array.getElem_mem inside)
  cases shape : Float.exactlyRepresentablePowersOfTen[e].toModel.unpack with
  | finite sign m exponent positive => exact ⟨sign, m, exponent, positive, rfl⟩
  | infinity | notANumber | zero =>
    rw [shape] at this
    cases this

private theorem isNaN_mul {x y : Float} (number : x.isNaN = false)
    (power : y.toModel.unpack = .finite sign m e positive) :
    (x * y).isNaN = false := by
  apply isNaN_ofModel_pack
  rw [power]
  exact isNaN_mul_finite number ..

private theorem isNaN_div {x y : Float} (number : x.isNaN = false)
    (power : y.toModel.unpack = .finite sign m e positive) :
    (x / y).isNaN = false := by
  apply isNaN_ofModel_pack
  rw [power]
  exact isNaN_div_finite number ..

/-- Reading a decimal gives a number, on the fast way with a power of ten that is there already as well as on the
other one. -/
theorem isNaN_toFloat (d : Decimal) : d.toFloat.isNaN = false := by
  have scientific : ∀ m s e, (Float.ofScientific m s e).isNaN = false := by
    intro m s e
    rw [Float.ofScientific]
    split
    · rename_i small
      obtain ⟨sign, n, exponent, positive, power⟩ := exists_power e (Nat.lt_succ_of_le small.2)
      have whole : m.toUInt64.toFloat.isNaN = false := isNaN_ofModel_pack (isNaN_ofNat _ _)
      cases s with
      | true => exact isNaN_div whole power
      | false => exact isNaN_mul whole power
    · exact isNaN_ofModel_pack (isNaN_ofScientific ..)
  rw [Decimal.toFloat]
  split <;> exact scientific ..

/-! Writing a number. -/

/-- The bytes in the text of a finite number. -/
def isNumeral (b : UInt8) : Bool :=
  Text.isDigit b || b == point || b == '-'.toUInt8 || b == '+'.toUInt8 || b == 'E'.toUInt8

/-- A text that a finite number can have: it starts with a digit or with a minus sign. -/
structure Numeral (t : Text) : Prop where
  starts : ∃ b, t.head? = some b ∧ (Text.isDigit b = true ∨ b = '-'.toUInt8)
  inside : ∀ b ∈ t, isNumeral b = true

private theorem isNumeral_of_isDigit (digit : Text.isDigit b = true) : isNumeral b = true := by
  rw [isNumeral, digit]
  rfl

private theorem isNumeral_zeros (n : Nat) : ∀ b ∈ zeros n, isNumeral b = true := by
  intro b member
  rw [List.eq_of_mem_replicate member]
  rfl

private theorem Numeral.digit (digit : Text.isDigit d = true) (inside : ∀ b ∈ t, isNumeral b = true) :
    Numeral (d :: t) :=
  ⟨⟨d, rfl, .inl digit⟩, List.forall_mem_cons.2 ⟨isNumeral_of_isDigit digit, inside⟩⟩

private theorem Numeral.negative (size : Numeral t) : Numeral ('-'.toUInt8 :: t) :=
  ⟨⟨_, rfl, .inr rfl⟩, List.forall_mem_cons.2 ⟨rfl, size.inside⟩⟩

private theorem Numeral.append (front : Numeral t) (inside : ∀ b ∈ u, isNumeral b = true) : Numeral (t ++ u) := by
  obtain ⟨⟨b, first, starts⟩, all⟩ := front
  refine ⟨⟨b, ?_, starts⟩, List.forall_mem_append.2 ⟨all, inside⟩⟩
  rw [List.head?_append, first]
  rfl

section

variable {d : UInt8} {ds : Text} (digit : Text.isDigit d = true) (digits : ∀ b ∈ ds, isNumeral b = true)
include digit digits

private theorem numeral_positional (k : Int) : Numeral (positional (d :: ds) k) := by
  have all := (Numeral.digit digit digits).inside
  cases k with
  | ofNat k =>
    cases k with
    | zero => exact .digit rfl (List.forall_mem_cons.2 ⟨rfl, all⟩)
    | succ k =>
      rw [positional, if_neg (Nat.succ_ne_zero k)]
      split
      · exact (Numeral.digit digit digits).append (isNumeral_zeros _)
      · have front : Numeral (d :: ds.take k) := .digit digit fun b member => digits b (List.mem_of_mem_take member)
        apply front.append
        exact List.forall_mem_cons.2 ⟨rfl, fun b member => digits b (List.mem_of_mem_drop member)⟩
  | negSucc k =>
    have front : Numeral ('0'.toUInt8 :: point :: zeros (k + 1)) :=
      .digit rfl (List.forall_mem_cons.2 ⟨rfl, isNumeral_zeros _⟩)
    exact front.append all

private theorem numeral_exponential (exponent : Int) : Numeral (exponential (d :: ds) exponent) := by
  have mark : ∀ b ∈ 'E'.toUInt8 :: (if exponent < 0 then '-'.toUInt8 else '+'.toUInt8) ::
      zeros (2 - (Text.ofNat exponent.natAbs).length), isNumeral b = true := by
    refine List.forall_mem_cons.2 ⟨rfl, List.forall_mem_cons.2 ⟨?_, isNumeral_zeros _⟩⟩
    split <;> rfl
  have size : ∀ b ∈ Text.ofNat exponent.natAbs, isNumeral b = true :=
    fun b member => isNumeral_of_isDigit (Text.isDigit_ofNat _ b member)
  cases ds with
  | nil =>
    have mantissa : Numeral [d] := .digit digit nofun
    exact (mantissa.append mark).append size
  | cons next rest =>
    have mantissa : Numeral (d :: point :: next :: rest) := .digit digit (List.forall_mem_cons.2 ⟨rfl, digits⟩)
    exact (mantissa.append mark).append size

end

private theorem numeral_magnitudeText (x : Float) : Numeral (magnitudeText x) := by
  have written : ∀ n, ∃ d ds, Text.ofNat n = d :: ds ∧ Text.isDigit d = true ∧ ∀ b ∈ ds, isNumeral b = true := by
    intro n
    obtain ⟨d, ds, split⟩ := List.exists_cons_of_ne_nil (Text.ofNat_ne_nil n)
    have digits := Text.isDigit_ofNat n
    rw [split] at digits
    obtain ⟨first, rest⟩ := List.forall_mem_cons.1 digits
    exact ⟨d, ds, split, first, fun b member => isNumeral_of_isDigit (rest b member)⟩
  obtain ⟨d, ds, split, digit, digits⟩ := written (Decimal.shortest x).coefficient
  simp only [magnitudeText, split]
  split
  · exact numeral_exponential digit digits _
  · exact numeral_positional digit digits _

/-- The text of a finite number is a numeral. -/
theorem numeral_text {x : Float} (number : x.isNaN = false) (finite : x.isInf = false) : Numeral (text x) := by
  have size : ∀ y, Numeral (if isZero x then ['0'.toUInt8] else if x.isInf then Text.ofString "Infinity"
      else magnitudeText y) := by
    intro y
    split
    · exact .digit rfl nofun
    · rw [finite, if_neg Bool.false_ne_true]
      exact numeral_magnitudeText y
  simp only [text, number, Bool.false_eq_true, if_false]
  split
  · exact (size _).negative
  · exact size _

end Number
end Lox
