import Mathlib.Algebra.Group.Nat.Defs
import Easel.Decimal.Reading

/-! Which decimal numbers are too large for a real. The largest real is `(2 ^ 53 - 1) * 2 ^ 971`. What
lies less than half a unit above it is rounded down to it, and from there on to infinity. -/

namespace Easel.Decimal

open Float.Model Float.Model.UnpackedFloat

/-! ### Mantissas -/

theorem mantissa_shiftRight (extended : ExtendedMantissa) (shift : Nat) :
    (extended >>> shift).mantissa = extended.mantissa / 2 ^ shift := by
  induction shift with
  | zero => exact (Nat.div_one _).symm
  | succ shift ih =>
      change (extended >>> shift).mantissa / 2 = _
      rw [ih, Nat.div_div_eq_div_mul, Nat.pow_succ]

theorem roundBit_shiftRight (extended : ExtendedMantissa) (shift : Nat) :
    (extended >>> (shift + 1)).roundBit = (extended.mantissa / 2 ^ shift % 2 != 0) := by
  change ((extended >>> shift).mantissa % 2 != 0) = _
  rw [mantissa_shiftRight]

theorem mantissa_ofMantissaAndAccuracy (mantissa : Nat) (accuracy : Accuracy) :
    (ExtendedMantissa.ofMantissaAndAccuracy mantissa accuracy).mantissa = mantissa := by
  cases accuracy with
  | exact => rfl
  | inexact order => cases order <;> rfl

theorem roundedMantissa_bounds (extended : ExtendedMantissa) :
    extended.mantissa ≤ extended.roundedMantissa ∧
      extended.roundedMantissa ≤ extended.mantissa + 1 := by
  obtain ⟨mantissa, roundBit, stickyBit⟩ := extended
  cases roundBit <;> cases stickyBit <;>
    simp [ExtendedMantissa.roundedMantissa, ExtendedMantissa.accuracy, Accuracy.roundToNearestEven]
  omega

/-- A tie goes to the even neighbour, which for an odd mantissa is the one above. -/
theorem roundedMantissa_of_odd {extended : ExtendedMantissa} (odd : extended.mantissa % 2 = 1) :
    extended.roundedMantissa = extended.mantissa + extended.roundBit.toNat := by
  obtain ⟨mantissa, roundBit, stickyBit⟩ := extended
  cases roundBit <;> cases stickyBit <;>
    simp [ExtendedMantissa.roundedMantissa, ExtendedMantissa.accuracy, Accuracy.roundToNearestEven]
  exact odd

/-! ### Packing -/

/-- Bits with a full exponent are no finite number. All others are zero or a number of at most 53
bits with the exponent that they hold. -/
theorem unpack_cases (bits : BitVec Format.binary64.numBits) :
    (unpackExponent bits = -1#11 ∧
      (UnpackedFloat.unpack Format.binary64 bits).isFinite = false) ∨
    unpackExponent bits ≠ -1#11 ∧
      ((∃ sign, UnpackedFloat.unpack Format.binary64 bits = .zero sign) ∨
        ∃ sign mantissa exponent positive,
          UnpackedFloat.unpack Format.binary64 bits = .finite sign mantissa exponent positive ∧
          mantissa < 2 ^ 53 ∧ exponent = max 1 ((unpackExponent bits).toNat : Int) - 1075) := by
  have bias : Format.binary64.exponentBias = 1023 := rfl
  unfold UnpackedFloat.unpack
  dsimp only
  by_cases full : unpackExponent bits = -1#11
  · rw [if_pos full]
    refine .inl ⟨full, ?_⟩
    split <;> rfl
  · rw [if_neg full]
    refine .inr ⟨full, ?_⟩
    by_cases least : unpackExponent bits = 0#11
    · have none : (unpackExponent bits).toNat = 0 := by
        rw [least]
        rfl
      rw [if_pos least]
      by_cases empty : unpackMantissa bits = 0#52
      · rw [dif_pos empty]
        exact .inl ⟨_, rfl⟩
      · have positive : 0 < (unpackMantissa bits).toNat :=
          Nat.pos_of_ne_zero fun none => empty (BitVec.eq_of_toNat_eq none)
        rw [dif_neg empty]
        refine .inr ⟨_, _, _, positive, rfl, ?_, by omega⟩
        exact Nat.lt_trans (unpackMantissa bits).isLt (by decide)
    · have some : (unpackExponent bits).toNat ≠ 0 := fun none => least (BitVec.eq_of_toNat_eq none)
      have positive : 0 < (1#1 ++ unpackMantissa bits).toNat := by
        rw [BitVec.toNat_append]
        exact Nat.lt_of_lt_of_le (by decide) Nat.left_le_or
      rw [if_neg least]
      exact .inr ⟨_, _, _, positive, rfl, (1#1 ++ unpackMantissa bits).isLt, by omega⟩

theorem isFinite_unpack (bits : BitVec Format.binary64.numBits) :
    (UnpackedFloat.unpack Format.binary64 bits).isFinite = true ↔ unpackExponent bits ≠ -1#11 := by
  rcases unpack_cases bits with
    ⟨full, same⟩ | ⟨partly, ⟨sign, same⟩ | ⟨sign, mantissa, exponent, positive, same, -⟩⟩
  · rw [same]
    exact iff_of_false Bool.false_ne_true fun partly => partly full
  · rw [same]
    exact iff_of_true rfl partly
  · rw [same]
    exact iff_of_true rfl partly

theorem isFinite_pack_zero (sign : Sign) : (Float.Model.pack (.zero sign)).isFinite = true := by
  cases sign <;> decide

theorem isFinite_pack_finite (sign : Sign) (mantissa : Nat) (exponent : Int)
    (positive : 0 < mantissa) :
    (Float.Model.pack (.finite sign mantissa exponent positive)).isFinite = true ↔
      exponent < 972 := by
  change (UnpackedFloat.unpack Format.binary64 (UnpackedFloat.pack Format.binary64 _)).isFinite =
    true ↔ _
  rw [isFinite_unpack]
  unfold UnpackedFloat.pack
  have bias : Format.binary64.exponentBias = 1023 := rfl
  dsimp only
  split
  · rename_i large
    rw [packedInfinity, unpackExponent_packComponents]
    change 2048 ≤ _ at large
    refine ⟨fun partly => absurd rfl partly, fun small => ?_⟩
    omega
  · rename_i small
    change ¬ 2048 ≤ _ at small
    have below : exponent < 972 := by omega
    refine ⟨fun _ => below, fun _ => ?_⟩
    split
    · rw [unpackExponent_packComponents]
      intro full
      have same := congrArg BitVec.toNat full
      rw [BitVec.toNat_ofNat, Nat.mod_eq_of_lt (by change _ < 2048; omega)] at same
      change _ = 2047 at same
      omega
    · rw [unpackExponent_packComponents]
      decide

/-! ### Rounding -/

theorem targetExponent_eq (mantissa : Nat) (exponent : Int) :
    Format.binary64.targetExponent (totalExponent mantissa exponent) =
      max (mantissa.log2 + exponent - 52) (-1074) := by
  have bits : (Format.binary64.mantissaBits : Int) = 53 := rfl
  have least : Format.binary64.minExponent = -1074 := rfl
  unfold Format.targetExponent totalExponent
  rw [bits, least]
  congr 1
  omega

theorem shiftToTargetExponent_eq (mantissa : Nat) (exponent : Int) (accuracy : Accuracy)
    {shift : Nat}
    (distance : (max (mantissa.log2 + exponent - 52) (-1074) - exponent).toNat = shift) :
    shiftToTargetExponent Format.binary64 mantissa exponent accuracy =
      (ExtendedMantissa.ofMantissaAndAccuracy mantissa accuracy >>> shift, exponent + shift) := by
  unfold shiftToTargetExponent shiftToExponent
  rw [targetExponent_eq]
  dsimp only
  rw [distance]

def assembled (sign : Sign) (mantissa : Nat) (exponent : Int) : UnpackedFloat :=
  if zero : mantissa = 0 then .zero sign
  else .finite sign mantissa exponent (Nat.pos_of_ne_zero zero)

theorem assembled_of_pos (sign : Sign) {mantissa : Nat} (exponent : Int)
    (positive : 0 < mantissa) :
    assembled sign mantissa exponent = .finite sign mantissa exponent positive :=
  dif_neg (Nat.ne_of_gt positive)

theorem roundWithAccuracy_eq (sign : Sign) {mantissa : Nat} {exponent : Int}
    {accuracy : Accuracy} {first rounded : Nat} (second : Nat)
    (shifts : (max (mantissa.log2 + exponent - 52) (-1074) - exponent).toNat = first)
    (rounds : (ExtendedMantissa.ofMantissaAndAccuracy mantissa accuracy >>> first).roundedMantissa =
      rounded)
    (normal : (max (rounded.log2 + (exponent + first) - 52) (-1074) - (exponent + first)).toNat =
      second) :
    roundWithAccuracy Format.binary64 sign mantissa exponent accuracy =
      assembled sign (rounded / 2 ^ second) (exponent + first + second) := by
  unfold roundWithAccuracy
  rw [shiftToTargetExponent_eq mantissa exponent accuracy shifts]
  dsimp only
  rw [rounds, shiftToTargetExponent_eq rounded (exponent + first) .exact normal]
  have final : (ExtendedMantissa.ofMantissaAndAccuracy rounded .exact >>> second).mantissa =
      rounded / 2 ^ second := mantissa_shiftRight _ second
  rw [← final]
  rfl

theorem roundWithAccuracy_cases (sign : Sign) (mantissa : Nat) (exponent : Int)
    (accuracy : Accuracy) {shift rounded : Nat}
    (shifts : (max (mantissa.log2 + exponent - 52) (-1074) - exponent).toNat = shift)
    (rounds : (ExtendedMantissa.ofMantissaAndAccuracy mantissa accuracy >>> shift).roundedMantissa =
      rounded) :
    rounded = 0 ∧ roundWithAccuracy Format.binary64 sign mantissa exponent accuracy = .zero sign ∨
    (∃ positive, rounded < 2 ^ 53 ∧
      roundWithAccuracy Format.binary64 sign mantissa exponent accuracy =
        .finite sign rounded (exponent + shift) positive) ∨
    rounded = 2 ^ 53 ∧ ∃ positive,
      roundWithAccuracy Format.binary64 sign mantissa exponent accuracy =
        .finite sign (2 ^ 52) (exponent + shift + 1) positive := by
  have short : mantissa / 2 ^ shift < 2 ^ 53 := by
    rw [Nat.div_lt_iff_lt_mul (Nat.two_pow_pos shift), ← Nat.pow_add]
    exact Nat.lt_of_lt_of_le Nat.lt_log2_self (Nat.pow_le_pow_right (by decide) (by omega))
  have most : rounded ≤ 2 ^ 53 := by
    have bounds := (roundedMantissa_bounds
      (ExtendedMantissa.ofMantissaAndAccuracy mantissa accuracy >>> shift)).2
    rw [rounds, mantissa_shiftRight, mantissa_ofMantissaAndAccuracy] at bounds
    omega
  by_cases carried : rounded = 2 ^ 53
  · have bits : rounded.log2 = 53 := by rw [carried, Nat.log2_two_pow]
    have halved : rounded / 2 ^ 1 = 2 ^ 52 := by
      rw [carried]
      decide
    have same := roundWithAccuracy_eq sign 1 shifts rounds (by omega)
    rw [halved, assembled_of_pos sign _ (by decide)] at same
    exact .inr (.inr ⟨carried, _, same⟩)
  · have less : rounded < 2 ^ 53 := by omega
    have bits : rounded.log2 ≤ 52 := by
      by_cases zero : rounded = 0
      · simp [zero]
      · exact Nat.le_of_lt_succ ((Nat.log2_lt zero).mpr less)
    have same := roundWithAccuracy_eq sign 0 shifts rounds (by omega)
    rw [Nat.pow_zero, Nat.div_one, Int.natCast_zero, Int.add_zero] at same
    by_cases zero : rounded = 0
    · rw [zero] at same
      exact .inl ⟨zero, same⟩
    · rw [assembled_of_pos sign _ (Nat.pos_of_ne_zero zero)] at same
      exact .inr (.inl ⟨_, less, same⟩)

theorem roundedMantissa_lt_iff {mantissa shift : Nat} (accuracy : Accuracy)
    (short : mantissa < 2 ^ 54 * 2 ^ shift) :
    (ExtendedMantissa.ofMantissaAndAccuracy mantissa accuracy >>> (shift + 1)).roundedMantissa <
      2 ^ 53 ↔ mantissa < (2 ^ 54 - 1) * 2 ^ shift := by
  rw [← Nat.div_lt_iff_lt_mul (Nat.two_pow_pos shift)] at short ⊢
  have front : (ExtendedMantissa.ofMantissaAndAccuracy mantissa accuracy >>> (shift + 1)).mantissa =
      mantissa / 2 ^ shift / 2 := by
    rw [mantissa_shiftRight, mantissa_ofMantissaAndAccuracy, Nat.pow_succ,
      Nat.div_div_eq_div_mul]
  have last := roundBit_shiftRight (ExtendedMantissa.ofMantissaAndAccuracy mantissa accuracy) shift
  rw [mantissa_ofMantissaAndAccuracy] at last
  have bounds := (roundedMantissa_bounds
    (ExtendedMantissa.ofMantissaAndAccuracy mantissa accuracy >>> (shift + 1))).2
  have tie := @roundedMantissa_of_odd
    (ExtendedMantissa.ofMantissaAndAccuracy mantissa accuracy >>> (shift + 1))
  rw [front] at bounds tie
  rw [last] at tie
  generalize mantissa / 2 ^ shift = bits at short bounds tie ⊢
  by_cases ones : bits / 2 = 2 ^ 53 - 1
  · have up := tie (by omega)
    rw [ones] at up
    rcases Nat.mod_two_eq_zero_or_one bits with even | odd
    · rw [even] at up
      simp at up
      omega
    · rw [odd] at up
      simp at up
      omega
  · omega

/-- A real is finite if it lies below the middle between the largest one and `2 ^ 1024`. The middle
itself goes to the even neighbour, which is not the largest one. -/
theorem isFinite_roundWithAccuracy (sign : Sign) (mantissa : Nat) {exponent : Int}
    (accuracy : Accuracy) (small : exponent ≤ 970) :
    (Float.Model.pack
        (roundWithAccuracy Format.binary64 sign mantissa exponent accuracy)).isFinite = true ↔
      mantissa < (2 ^ 54 - 1) * 2 ^ (970 - exponent).toNat := by
  generalize shifts : (max (mantissa.log2 + exponent - 52) (-1074) - exponent).toNat = shift
  generalize rounds :
    (ExtendedMantissa.ofMantissaAndAccuracy mantissa accuracy >>> shift).roundedMantissa = rounded
  have least : mantissa / 2 ^ shift ≤ rounded := by
    have bounds := (roundedMantissa_bounds
      (ExtendedMantissa.ofMantissaAndAccuracy mantissa accuracy >>> shift)).1
    rwa [rounds, mantissa_shiftRight, mantissa_ofMantissaAndAccuracy] at bounds
  obtain ⟨most, finite⟩ : rounded ≤ 2 ^ 53 ∧ ((Float.Model.pack
      (roundWithAccuracy Format.binary64 sign mantissa exponent accuracy)).isFinite = true ↔
      rounded = 0 ∨ rounded < 2 ^ 53 ∧ exponent + shift < 972 ∨
        rounded = 2 ^ 53 ∧ exponent + shift < 971) := by
    rcases roundWithAccuracy_cases sign mantissa exponent accuracy shifts rounds with
      ⟨zero, same⟩ | ⟨positive, less, same⟩ | ⟨carried, positive, same⟩
    · rw [same]
      simp [isFinite_pack_zero, zero]
    · rw [same, isFinite_pack_finite]
      omega
    · rw [same, isFinite_pack_finite]
      omega
  rw [finite]
  have below : mantissa < 2 ^ (mantissa.log2 + 1) := Nat.lt_log2_self
  generalize room : (970 - exponent).toNat = spare
  rcases Int.lt_trichotomy (mantissa.log2 + exponent) 1023 with low | middle | high
  · have fits : mantissa < 2 ^ 53 * 2 ^ spare := by
      rw [← Nat.pow_add]
      exact Nat.lt_of_lt_of_le below (Nat.pow_le_pow_right (by decide) (by omega))
    refine iff_of_true ?_ ?_
    · omega
    · exact Nat.lt_of_lt_of_le fits (Nat.mul_le_mul_right _ (by decide))
  · obtain rfl : shift = spare + 1 := by omega
    have short : mantissa < 2 ^ 54 * 2 ^ spare := by
      rw [← Nat.pow_add]
      exact Nat.lt_of_lt_of_le below (Nat.pow_le_pow_right (by decide) (by omega))
    rw [← roundedMantissa_lt_iff accuracy short, rounds]
    omega
  · have filled : mantissa ≠ 0 := by
      rintro rfl
      rw [Nat.log2_zero] at high
      omega
    have first := Nat.log2_self_le filled
    have large : 2 ^ 54 * 2 ^ spare ≤ mantissa := by
      rw [← Nat.pow_add]
      exact Nat.le_trans (Nat.pow_le_pow_right (by decide) (by omega)) first
    have kept : 0 < mantissa / 2 ^ shift := by
      apply Nat.div_pos _ (Nat.two_pow_pos shift)
      exact Nat.le_trans (Nat.pow_le_pow_right (by decide) (by omega)) first
    refine iff_of_false ?_ ?_ <;> omega

section Operations

variable (first second : Sign) {m n : Nat} {e f : Int} (left : 0 < m) (right : 0 < n)

theorem isFinite_mul (small : e + f ≤ 970) :
    (Float.Model.pack (UnpackedFloat.mul Format.binary64 (.finite first m e left)
        (.finite second n f right))).isFinite = true ↔
      m * n < (2 ^ 54 - 1) * 2 ^ (970 - (e + f)).toNat :=
  isFinite_roundWithAccuracy (first * second) (m * n) .exact small

theorem isFinite_div (small : e - f ≤ 970) :
    (Float.Model.pack (UnpackedFloat.div Format.binary64 (.finite first m e left)
        (.finite second n f right))).isFinite = true ↔
      m < (2 ^ 54 - 1) * 2 ^ (970 - (e - f)).toNat * n := by
  change (Float.Model.pack (roundWithAccuracy Format.binary64 _
    (divCore Format.binary64 m e n f).1 (divCore Format.binary64 m e n f).2.1
    (divCore Format.binary64 m e n f).2.2)).isFinite = true ↔ _
  obtain ⟨shift, exponent⟩ : ∃ shift : Nat,
      (divCore Format.binary64 m e n f).2.1 = e - f - shift := by
    refine ⟨(e - f - (divCore Format.binary64 m e n f).2.1).toNat, ?_⟩
    have most : (divCore Format.binary64 m e n f).2.1 ≤ e - f := Int.min_le_left _ _
    omega
  have quotient : (divCore Format.binary64 m e n f).1 = m * 2 ^ shift / n := by
    change m <<< (e - f - (divCore Format.binary64 m e n f).2.1).toNat / n = _
    rw [exponent, Nat.shiftLeft_eq]
    congr 3
    omega
  have room : (970 - (e - f - shift)).toNat = (970 - (e - f)).toNat + shift := by omega
  rw [isFinite_roundWithAccuracy _ _ _ (by omega), quotient, exponent, Nat.div_lt_iff_lt_mul right,
    room, Nat.pow_add, ← Nat.mul_assoc, Nat.mul_right_comm,
    Nat.mul_lt_mul_right (Nat.two_pow_pos shift)]

end Operations

/-! ### Small numbers -/

def Small : UnpackedFloat → Prop
  | .zero _ => True
  | .finite _ mantissa exponent _ => mantissa < 2 ^ 53 ∧ exponent ≤ 60
  | _ => False

theorem small_unpack {bits : BitVec Format.binary64.numBits}
    (low : (unpackExponent bits).toNat ≤ 1135) :
    Small (UnpackedFloat.unpack Format.binary64 bits) := by
  rcases unpack_cases bits with
    ⟨full, -⟩ | ⟨-, ⟨sign, same⟩ | ⟨sign, mantissa, exponent, positive, same, short, placed⟩⟩
  · rw [full] at low
    exact absurd low (by decide)
  · rw [same]
    trivial
  · rw [same]
    exact ⟨short, by omega⟩

theorem small_pack {u : UnpackedFloat} (small : Small u) : Small (Float.Model.pack u).unpack := by
  cases u with
  | infinity | notANumber => cases small
  | zero sign => cases sign <;> trivial
  | finite sign mantissa exponent positive =>
      apply small_unpack
      change (unpackExponent (UnpackedFloat.pack Format.binary64 _)).toNat ≤ 1135
      have bias : Format.binary64.exponentBias = 1023 := rfl
      have low := small.2
      unfold UnpackedFloat.pack
      dsimp only
      rw [if_neg (by change ¬ 2048 ≤ _; omega)]
      split
      · rw [unpackExponent_packComponents, BitVec.toNat_ofNat]
        refine Nat.le_trans (Nat.mod_le _ _) ?_
        omega
      · rw [unpackExponent_packComponents]
        decide

theorem small_ofUInt64 {n : UInt64} (short : n.toNat < 2 ^ 53) :
    Small (UInt64.toFloat n).toModel.unpack := by
  apply small_pack
  change Small (UnpackedFloat.normalize Format.binary64 (n.toNat : Int) 0 .positive)
  unfold UnpackedFloat.normalize
  split
  · rename_i negative
    rw [Int.compare_eq_lt] at negative
    omega
  · trivial
  · unfold UnpackedFloat.round decreaseExponent
    rw [Int.toNat_natCast, targetExponent_eq]
    dsimp only
    generalize scale : (0 - max ((n.toNat.log2 : Int) + 0 - 52) (-1074)).toNat = more
    generalize shifts : (max (((n.toNat <<< more).log2 : Int) + (0 - more) - 52) (-1074) -
      (0 - more)).toNat = shift
    generalize rounds : (ExtendedMantissa.ofMantissaAndAccuracy (n.toNat <<< more) .exact >>>
      shift).roundedMantissa = rounded
    have bits : (n.toNat <<< more).log2 ≤ 53 + more := by
      by_cases zero : n.toNat <<< more = 0
      · simp [zero]
      · apply Nat.le_of_lt
        rw [Nat.log2_lt zero, Nat.shiftLeft_eq, Nat.pow_add]
        exact Nat.mul_lt_mul_of_pos_right short (Nat.two_pow_pos more)
    rcases roundWithAccuracy_cases .positive (n.toNat <<< more) (0 - more) .exact shifts rounds with
      ⟨-, same⟩ | ⟨positive, less, same⟩ | ⟨-, positive, same⟩
    · rw [same]
      trivial
    · rw [same]
      refine ⟨less, ?_⟩
      omega
    · rw [same]
      refine ⟨by decide, ?_⟩
      omega

def Middling : UnpackedFloat → Bool
  | .finite _ mantissa exponent _ => mantissa < 2 ^ 53 && -60 ≤ exponent && exponent ≤ 60
  | _ => false

theorem powers_middling :
    Float.exactlyRepresentablePowersOfTen.all (fun x => Middling x.toModel.unpack) = true := by
  decide +kernel

theorem isFinite_with_power {x y : Float} (small : Small x.toModel.unpack)
    (middling : Middling y.toModel.unpack = true) :
    (x * y).isFinite = true ∧ (x / y).isFinite = true := by
  change (Float.Model.pack (UnpackedFloat.mul _ x.toModel.unpack y.toModel.unpack)).isFinite = true ∧
    (Float.Model.pack (UnpackedFloat.div _ x.toModel.unpack y.toModel.unpack)).isFinite = true
  generalize x.toModel.unpack = u at small
  generalize y.toModel.unpack = v at middling
  cases v with
  | infinity | notANumber | zero => cases middling
  | finite second n f right =>
      unfold Middling at middling
      simp only [Bool.and_eq_true, decide_eq_true_eq] at middling
      obtain ⟨⟨short, above⟩, below⟩ := middling
      cases u with
      | infinity | notANumber => cases small
      | zero first => exact ⟨isFinite_pack_zero _, isFinite_pack_zero _⟩
      | finite first m e left =>
          obtain ⟨narrow, low⟩ := small
          have wide : 2 ^ 53 ≤ 2 ^ 54 - 1 := by decide
          constructor
          · rw [isFinite_mul first second left right (by omega)]
            refine Nat.lt_of_lt_of_le (Nat.mul_lt_mul_of_lt_of_le narrow (Nat.le_of_lt short) ?_)
              (Nat.mul_le_mul wide (Nat.pow_le_pow_right (by decide) (by omega)))
            decide
          · rw [isFinite_div first second left right (by omega)]
            refine Nat.lt_of_lt_of_le (Nat.lt_of_lt_of_le narrow wide) ?_
            rw [Nat.mul_assoc]
            exact Nat.le_mul_of_pos_right _ (Nat.mul_pos (Nat.two_pow_pos _) right)

/-! ### Decimal numbers -/

/-- The middle between the largest real and the power of two behind it. -/
def limit : Nat := (2 ^ 54 - 1) * 2 ^ 970

example : limit = 2 ^ 1024 - 2 ^ 970 := by decide +kernel

theorem limit_pos : 0 < limit := by decide +kernel

theorem limit_shifted (shift : Nat) : (2 ^ 54 - 1) * 2 ^ (970 + shift) = limit * 2 ^ shift := by
  have apart (most low : Nat) : most * 2 ^ (low + shift) = most * 2 ^ low * 2 ^ shift := by
    rw [Nat.pow_add, Nat.mul_assoc]
  exact apart (2 ^ 54 - 1) 970

theorem isFinite_whole (digits : Nat) (positive : 0 < digits <<< Format.binary64.mantissaBits)
    (one : 0 < 10 ^ 0) :
    (Float.Model.pack (UnpackedFloat.mul Format.binary64
        (.finite .positive (digits <<< Format.binary64.mantissaBits)
          (-Format.binary64.mantissaBits) positive)
        (.finite .positive (10 ^ 0) 0 one))).isFinite = true ↔ digits < limit := by
  have bits : Format.binary64.mantissaBits = 53 := rfl
  have room : (970 - (-(53 : Nat) + 0 : Int)).toNat = 970 + 53 := rfl
  rw [isFinite_mul _ _ _ _ (by decide), bits, room, limit_shifted 53, Nat.pow_zero, Nat.mul_one,
    Nat.shiftLeft_eq, Nat.mul_lt_mul_right (Nat.two_pow_pos 53)]

theorem isFinite_fraction {digits power : Nat} (positive : 0 < digits) (some : 0 < power) :
    (Float.Model.pack (UnpackedFloat.div Format.binary64 (.finite .positive digits 0 positive)
        (.finite .positive power 0 some))).isFinite = true ↔ digits < limit * power := by
  have room : (970 - (0 - 0 : Int)).toNat = 970 + 0 := rfl
  rw [isFinite_div _ _ positive some (by decide), room, limit_shifted 0, Nat.pow_zero, Nat.mul_one]

theorem isFinite_ofScientific (digits places : Nat) :
    (Float.Model.ofScientific digits (-places)).isFinite = true ↔ digits < limit * 10 ^ places := by
  unfold Float.Model.ofScientific UnpackedFloat.ofScientific
  by_cases zero : digits = 0
  · rw [dif_pos zero, zero]
    exact iff_of_true (isFinite_pack_zero _) (Nat.mul_pos limit_pos (Nat.pow_pos (by decide)))
  · rw [dif_neg zero, if_neg (by change ¬ (_ > (2048 : Int)); omega)]
    by_cases tiny : (-places : Int) < -(2048 + digits.log2)
    · rw [if_pos (by exact tiny)]
      refine iff_of_true (isFinite_pack_zero _) ?_
      calc digits < 2 ^ (digits.log2 + 1) := Nat.lt_log2_self
        _ ≤ 2 ^ places := Nat.pow_le_pow_right (by decide) (by omega)
        _ ≤ 10 ^ places := Nat.pow_le_pow_left (by decide) places
        _ ≤ limit * 10 ^ places := Nat.le_mul_of_pos_left _ limit_pos
    · rw [if_neg (by exact tiny)]
      by_cases whole : places = 0
      · subst whole
        rw [if_pos (by decide), Nat.pow_zero, Nat.mul_one]
        exact isFinite_whole digits _ _
      · rw [if_neg (by omega)]
        have power : (- -(places : Int)).toNat = places := by omega
        rw [isFinite_fraction, power]

def Unsigned : UnpackedFloat → Prop
  | .notANumber => False
  | .infinity sign | .zero sign | .finite sign _ _ _ => sign = .positive

theorem unsigned_assembled (mantissa : Nat) (exponent : Int) :
    Unsigned (assembled .positive mantissa exponent) := by
  cases mantissa <;> rfl

theorem unsigned_roundWithAccuracy (mantissa : Nat) (exponent : Int) (accuracy : Accuracy) :
    Unsigned (roundWithAccuracy Format.binary64 .positive mantissa exponent accuracy) := by
  rw [roundWithAccuracy_eq .positive _ rfl rfl rfl]
  exact unsigned_assembled _ _

theorem unsigned_ofScientific (digits : Nat) (power : Int) :
    Unsigned (UnpackedFloat.ofScientific Format.binary64 digits power) := by
  unfold UnpackedFloat.ofScientific
  by_cases zero : digits = 0
  · rw [dif_pos zero]
    rfl
  rw [dif_neg zero]
  by_cases huge : power > 2048
  · rw [if_pos (by exact huge)]
    rfl
  rw [if_neg (by exact huge)]
  by_cases tiny : power < -(2048 + digits.log2)
  · rw [if_pos (by exact tiny)]
    rfl
  rw [if_neg (by exact tiny)]
  by_cases whole : 0 ≤ power
  · rw [if_pos whole]
    exact unsigned_roundWithAccuracy _ _ _
  · rw [if_neg whole]
    exact unsigned_roundWithAccuracy _ _ _

theorem pack_eq_infinity {u : UnpackedFloat} (unsigned : Unsigned u)
    (infinite : (Float.Model.pack u).isFinite = false) :
    Float.Model.pack u = Float.Model.pack (.infinity .positive) := by
  cases u with
  | notANumber => cases unsigned
  | infinity sign =>
      cases unsigned
      rfl
  | zero sign =>
      rw [isFinite_pack_zero] at infinite
      cases infinite
  | finite sign mantissa exponent positive =>
      cases unsigned
      have large : 972 ≤ exponent := by
        rw [← Bool.not_eq_true, isFinite_pack_finite] at infinite
        omega
      have same : UnpackedFloat.pack Format.binary64 (.finite .positive mantissa exponent positive) =
          UnpackedFloat.pack Format.binary64 (.infinity .positive) := by
        have bias : Format.binary64.exponentBias = 1023 := rfl
        unfold UnpackedFloat.pack
        dsimp only
        rw [if_pos (by change 2048 ≤ _; omega)]
      exact Eq.mpr (Float.Model.mk.injEq ..) (congrArg UInt64.ofBitVec same)

theorem ofScientific_range (digits : Nat) {negative : Bool} {places : Nat}
    (fraction : negative = true ∨ places = 0) :
    (digits < limit * 10 ^ places → (Float.ofScientific digits negative places).isFinite = true) ∧
      (limit * 10 ^ places ≤ digits → Float.ofScientific digits negative places = 1 / 0) := by
  unfold Float.ofScientific
  split
  · rename_i quick
    obtain ⟨short, fits⟩ := quick
    have small : Small digits.toUInt64.toFloat.toModel.unpack := by
      apply small_ofUInt64
      change digits % 2 ^ 64 < 2 ^ 53
      exact Nat.lt_of_le_of_lt (Nat.mod_le _ _) short
    have inside : places < Float.exactlyRepresentablePowersOfTen.size := Nat.lt_succ_of_le fits
    have middling := Array.all_eq_true.mp powers_middling places inside
    obtain ⟨product, quotient⟩ := isFinite_with_power small middling
    constructor
    · intro below
      split
      · exact quotient
      · exact product
    · intro above
      have least : 2 ^ 53 ≤ limit := by decide +kernel
      have scaled : limit ≤ limit * 10 ^ places :=
        Nat.le_mul_of_pos_right _ (Nat.pow_pos (by decide))
      omega
  · have exponent : (if negative then Int.negOfNat places else Int.ofNat places) = -places := by
      rcases fraction with rfl | rfl
      · exact Int.negOfNat_eq
      · cases negative <;> rfl
    simp only [exponent]
    refine ⟨(isFinite_ofScientific digits places).mpr, fun above => ?_⟩
    have infinite : (Float.Model.ofScientific digits (-places)).isFinite = false := by
      rw [← Bool.not_eq_true, isFinite_ofScientific]
      omega
    exact congrArg Float.ofModel (pack_eq_infinity (unsigned_ofScientific _ _) infinite)

/-- The real nearest to a decimal number is finite below the limit, and infinity from there on. -/
theorem nearest_range (digits places : Nat) :
    (digits < limit * 10 ^ places → (nearest digits (-places)).isFinite = true) ∧
      (limit * 10 ^ places ≤ digits → nearest digits (-places) = 1 / 0) := by
  unfold nearest
  split
  · rename_i huge
    refine ⟨fun below => absurd below (Nat.not_lt.mpr ?_), fun _ => rfl⟩
    rw [Int.neg_neg, Int.toNat_natCast] at huge
    have filled : digits ≠ 0 := by
      rintro rfl
      rw [Nat.log2_zero] at huge
      omega
    have above : limit ≤ 2 ^ 1024 := by decide +kernel
    calc limit * 10 ^ places ≤ 2 ^ 1024 * (2 ^ 4) ^ places :=
          Nat.mul_le_mul above (Nat.pow_le_pow_left (by decide) places)
      _ = 2 ^ (1024 + 4 * places) := by rw [← Nat.pow_mul, Nat.pow_add 2 1024]
      _ ≤ 2 ^ digits.log2 := Nat.pow_le_pow_right (by decide) huge
      _ ≤ digits := Nat.log2_self_le filled
  · cases places with
    | zero => exact @ofScientific_range digits false 0 (.inr rfl)
    | succ places => exact @ofScientific_range digits true (places + 1) (.inl rfl)

end Easel.Decimal
