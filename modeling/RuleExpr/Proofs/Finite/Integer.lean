/-
  RuleExpr.Proofs.Finite.Integer — doubles of whole numbers are finite.

  A double is computed on as a sign, a mantissa and an exponent, rounded to 53 bits, and
  packed; it becomes infinite where the exponent does not fit its field. So an operation has a
  finite result as soon as the exponent stays at 971 or below (`isFinite_pack`), and for that a
  coarse bound on what rounding adds is enough (`exponentLe_roundWithAccuracy`). A whole number
  becomes a double by one conversion and one product with 1, which leaves ample room below 2 ^ 53
  (`isFinite_ofNat`); every int is a whole number of that size with a sign (`isFinite_floatOfInt`).
-/

import Mathlib.Algebra.Order.Ring.Int
import RuleExpr.Value

namespace RuleExpr.Binary64

open Float.Model Float.Model.UnpackedFloat

/-- A number, and its exponent is at most `k`. -/
def ExponentLe (k : Int) : UnpackedFloat → Prop
  | .zero _ => True
  | .finite _ _ e _ => e ≤ k
  | .infinity _ | .notANumber => False

theorem isFinite_of_exponentLe {k : Int} {u : UnpackedFloat} (h : ExponentLe k u) : u.isFinite = true := by
  cases u with
  | zero s => rfl
  | finite s m e hm => rfl
  | infinity s => exact h.elim
  | notANumber => exact h.elim

theorem ExponentLe.neg {k : Int} {u : UnpackedFloat} (h : ExponentLe k u) : ExponentLe k u.neg := by
  cases u with
  | zero s => trivial
  | finite s m e hm => exact h
  | infinity s => exact h
  | notANumber => exact h

/-! ## Packing -/

/-- The exponent field holds the exponent, 1075 higher; subnormal numbers hold 0 there. -/
theorem unpackExponent_pack_le {k : Int} (hlo : -1074 ≤ k) {u : UnpackedFloat} (h : ExponentLe k u) :
    (unpackExponent (UnpackedFloat.pack .binary64 u)).toNat ≤ k + 1075 := by
  have hbias : Format.binary64.exponentBias = 1023 := rfl
  cases u with
  | infinity s => exact h.elim
  | notANumber => exact h.elim
  | zero s =>
    show (unpackExponent (packedZero .binary64 s)).toNat ≤ k + 1075
    simp only [packedZero, unpackExponent_packComponents, BitVec.ofNat_eq_ofNat, BitVec.toNat_zero]
    omega
  | finite s m e hm =>
    have he : e ≤ k := h
    delta UnpackedFloat.pack
    dsimp only
    simp only [hbias]
    split
    · simp only [packedInfinity, unpackExponent_packComponents, BitVec.reduceNeg, BitVec.ofNat_eq_ofNat,
        BitVec.toNat_ofNat, Nat.reducePow, Nat.mod_succ, Nat.cast_ofNat]
      omega
    split
    · simp only [unpackExponent_packComponents, BitVec.toNat_ofNat, Nat.reducePow, Int.natCast_emod, Int.ofNat_toNat,
        Nat.cast_ofNat]
      omega
    · simp only [unpackExponent_packComponents, BitVec.toNat_ofNat, Nat.reducePow, Nat.zero_mod, Nat.cast_zero]
      omega

/-- What the fields of a double say of the number in them. The mantissa field has 52 bits, with the
    hidden bit above them, and an exponent field of ones holds no number. -/
def Fields (b : BitVec Format.binary64.numBits) : UnpackedFloat → Prop
  | .zero _ => True
  | .finite _ m e _ => m < 2 ^ 53 ∧ e + 1075 ≤ max (unpackExponent b).toNat 1
  | .infinity _ | .notANumber => (unpackExponent b).toNat = 2047

theorem fields_unpack (b : BitVec Format.binary64.numBits) : Fields b (UnpackedFloat.unpack .binary64 b) := by
  have hbias : Format.binary64.exponentBias = 1023 := rfl
  have hbits : Format.binary64.mantissaBitsWithoutImplicit = 52 := rfl
  unfold UnpackedFloat.unpack
  dsimp only
  by_cases hones : unpackExponent b = -1#_
  · have h2047 : (unpackExponent b).toNat = 2047 := by
      rw [hones]
      rfl
    rw [if_pos hones]
    by_cases hm : unpackMantissa b = 0#_
    · rw [if_pos hm]
      exact h2047
    · rw [if_neg hm]
      exact h2047
  rw [if_neg hones]
  by_cases hzero : unpackExponent b = 0#_
  · have h0 : (unpackExponent b).toNat = 0 := by
      rw [hzero]
      rfl
    have hmantissa : (unpackMantissa b).toNat < 2 ^ 52 := (unpackMantissa b).isLt
    rw [if_pos hzero]
    by_cases hm : unpackMantissa b = 0#_
    · rw [dif_pos hm]
      trivial
    · rw [dif_neg hm]
      exact ⟨by omega, by omega⟩
  · rw [if_neg hzero]
    exact ⟨(1#1 ++ @unpackMantissa .binary64 b).isLt, by omega⟩

theorem exponentLe_unpack {k : Int} (hlo : -1074 ≤ k) (hhi : k ≤ 971) {b : BitVec Format.binary64.numBits}
    (h : (unpackExponent b).toNat ≤ k + 1075) : ExponentLe k (UnpackedFloat.unpack .binary64 b) := by
  have hf := fields_unpack b
  cases hu : UnpackedFloat.unpack .binary64 b with
  | zero s => trivial
  | finite s m e hm =>
    rw [hu] at hf
    have he := hf.2
    show e ≤ k
    omega
  | infinity s =>
    rw [hu] at hf
    have : (unpackExponent b).toNat = 2047 := hf
    omega
  | notANumber =>
    rw [hu] at hf
    have : (unpackExponent b).toNat = 2047 := hf
    omega

theorem exponentLe_unpack_pack {k : Int} (hlo : -1074 ≤ k) (hhi : k ≤ 971) {u : UnpackedFloat} (h : ExponentLe k u) :
    ExponentLe k (Float.Model.pack u).unpack :=
  exponentLe_unpack hlo hhi (unpackExponent_pack_le hlo h)

theorem isFinite_pack {k : Int} (hlo : -1074 ≤ k) (hhi : k ≤ 971) {u : UnpackedFloat} (h : ExponentLe k u) :
    (Float.ofModel (.pack u)).isFinite = true :=
  isFinite_of_exponentLe (exponentLe_unpack_pack hlo hhi h)

theorem mantissa_unpack_lt {b : BitVec Format.binary64.numBits} {s : Sign} {m : Nat} {e : Int} {hm : 0 < m}
    (h : UnpackedFloat.unpack .binary64 b = .finite s m e hm) : m < 2 ^ 53 := by
  have hf := fields_unpack b
  rw [h] at hf
  exact hf.1

/-! ## Rounding -/

theorem log2_lt_of_lt {m a : Nat} (ha : 0 < a) (h : m < 2 ^ a) : m.log2 < a := by
  by_cases hm : m = 0
  · rw [hm]
    exact ha
  · exact (Nat.log2_lt hm).mpr h

theorem mantissa_shiftRight_le (em : ExtendedMantissa) (n : Nat) : (em >>> n).mantissa ≤ em.mantissa := by
  show (n.repeat ExtendedMantissa.shiftRightOne em).mantissa ≤ em.mantissa
  induction n with
  | zero => exact Nat.le_refl _
  | succ n ih => exact Nat.le_trans (Nat.div_le_self _ _) ih

theorem roundedMantissa_le (em : ExtendedMantissa) : em.roundedMantissa ≤ em.mantissa + 1 := by
  rcases em with ⟨m, r, s⟩
  cases r <;> cases s <;>
    simp only [ExtendedMantissa.roundedMantissa, ExtendedMantissa.accuracy, Accuracy.roundToNearestEven] <;> omega

theorem targetExponent_eq (m : Nat) (e : Int) :
    Format.binary64.targetExponent (totalExponent m e) = max (m.log2 + e - 52) (-1074) := by
  have hbits : (Format.binary64.mantissaBits : Int) = 53 := rfl
  have hmin : Format.binary64.minExponent = -1074 := rfl
  simp only [Format.targetExponent, totalExponent, hbits, hmin]
  omega

theorem exponent_shiftToTargetExponent (m : Nat) (e : Int) (x : Accuracy) :
    (shiftToTargetExponent .binary64 m e x).2 = max e (max (m.log2 + e - 52) (-1074)) := by
  show e + ((Format.binary64.targetExponent (totalExponent m e) - e).toNat : Int) = _
  rw [targetExponent_eq]
  omega

theorem roundedMantissa_shiftToTargetExponent_le (m : Nat) (e : Int) :
    (shiftToTargetExponent .binary64 m e .exact).1.roundedMantissa ≤ m + 1 := by
  have hshift := mantissa_shiftRight_le (ExtendedMantissa.ofMantissaAndAccuracy m .exact)
    (Format.binary64.targetExponent (totalExponent m e) - e).toNat
  exact Nat.le_trans (roundedMantissa_le _) (Nat.succ_le_succ hshift)

/-- The exponent is raised twice, before the mantissa is rounded and after, by less than the
    mantissa has bits. -/
theorem exponentLe_roundWithAccuracy {s : Sign} {m a : Nat} {e k : Int} (hm : m < 2 ^ a) (he : e + 2 * a ≤ k)
    (hk : 2 * a - 1074 ≤ k) : ExponentLe k (roundWithAccuracy .binary64 s m e .exact) := by
  let first := shiftToTargetExponent .binary64 m e .exact
  let second := shiftToTargetExponent .binary64 first.1.roundedMantissa first.2 .exact
  have hlog : m.log2 < a + 1 := log2_lt_of_lt (by omega) (by omega)
  have hrounded : first.1.roundedMantissa ≤ m + 1 := roundedMantissa_shiftToTargetExponent_le m e
  have hlog' : first.1.roundedMantissa.log2 < a + 1 := log2_lt_of_lt (by omega) (by omega)
  have h1 : first.2 = _ := exponent_shiftToTargetExponent m e .exact
  have h2 : second.2 = _ := exponent_shiftToTargetExponent first.1.roundedMantissa first.2 .exact
  show ExponentLe k (if h : second.1.mantissa = 0 then .zero s else .finite s _ second.2 _)
  by_cases hzero : second.1.mantissa = 0
  · rw [dif_pos hzero]
    trivial
  · rw [dif_neg hzero]
    show second.2 ≤ k
    omega

/-! ## Whole numbers -/

theorem exponentLe_ofNat {n : Nat} (hn : n < 2 ^ 53) : ExponentLe 212 (UnpackedFloat.ofNat .binary64 n) := by
  unfold UnpackedFloat.ofNat UnpackedFloat.ofInt UnpackedFloat.normalize
  split
  · next h =>
    have := Int.compare_eq_lt.mp h
    omega
  · trivial
  · show ExponentLe 212 (UnpackedFloat.round _ _ n _)
    unfold UnpackedFloat.round
    simp only [targetExponent_eq, decreaseExponent]
    have hlog := log2_lt_of_lt (by decide) hn
    have hshift : (0 - max ((n.log2 : Int) + 0 - 52) (-1074)).toNat ≤ 53 := by omega
    refine exponentLe_roundWithAccuracy (a := 106) ?_ (by omega) (by decide)
    rw [Nat.shiftLeft_eq]
    calc n * 2 ^ _ < 2 ^ 53 * 2 ^ _ := Nat.mul_lt_mul_of_pos_right hn (Nat.two_pow_pos _)
      _ ≤ 2 ^ 53 * 2 ^ 53 := Nat.mul_le_mul_left _ (Nat.pow_le_pow_right (by decide) hshift)

/-- The double by which a converted whole number is multiplied. -/
def one : Float := Float.ofBits 0x3FF0000000000000

theorem unpack_one : one.toModel.unpack = .finite .positive 4503599627370496 (-52) (by decide) := rfl

theorem ofNat_eq {n : Nat} (hn : n < 2 ^ 53) : Float.ofNat n = n.toUInt64.toFloat * one := by
  unfold Float.ofNat
  simp only [OfScientific.ofScientific, Float.ofScientific]
  rw [dif_pos ⟨hn, by decide⟩]
  rfl

theorem exponentLe_mul_one {u : UnpackedFloat} (hu : ∀ s m e hm, u = .finite s m e hm → m < 2 ^ 53)
    (h : ExponentLe 212 u) : ExponentLe 372 (UnpackedFloat.mul .binary64 u one.toModel.unpack) := by
  rw [unpack_one]
  cases u with
  | infinity s => exact h.elim
  | notANumber => exact h.elim
  | zero s => trivial
  | finite s m e hm =>
    have he : e ≤ 212 := h
    have hlt : m * 4503599627370496 < 2 ^ 106 := by
      have := hu s m e hm rfl
      omega
    exact exponentLe_roundWithAccuracy hlt (by omega) (by decide)

theorem exponentLe_unpack_ofNat {n : Nat} (hn : n < 2 ^ 53) : ExponentLe 372 (Float.ofNat n).toModel.unpack := by
  have hword : n.toUInt64.toNat = n := by
    rw [UInt64.toNat_ofNat']
    omega
  have h : ExponentLe 212 n.toUInt64.toFloat.toModel.unpack := by
    show ExponentLe 212 (Float.Model.pack (UnpackedFloat.ofNat .binary64 n.toUInt64.toNat)).unpack
    rw [hword]
    exact exponentLe_unpack_pack (by decide) (by decide) (exponentLe_ofNat hn)
  rw [ofNat_eq hn]
  exact exponentLe_unpack_pack (by decide) (by decide) (exponentLe_mul_one (fun _ _ _ _ => mantissa_unpack_lt) h)

theorem isFinite_ofNat {n : Nat} (hn : n < 2 ^ 53) : (Float.ofNat n).isFinite = true :=
  isFinite_of_exponentLe (exponentLe_unpack_ofNat hn)

theorem isFinite_floatOfInt (n : Int32) : (floatOfInt n).isFinite = true := by
  have hlo := n.le_toInt
  have hhi := n.toInt_lt
  unfold floatOfInt
  cases h : n.toInt with
  | ofNat k =>
    have hk : (k : Int) < 2 ^ 31 := by
      rw [h] at hhi
      exact hhi
    exact isFinite_ofNat (by omega)
  | negSucc k =>
    have hk : k + 1 < 2 ^ 53 := by omega
    exact isFinite_pack (by decide) (by decide) (exponentLe_unpack_ofNat hk).neg

end RuleExpr.Binary64
