/-
  RuleExpr.Proofs.Binary64.Value — the exact number that a double stands for.

  Arithmetic works on doubles that are unpacked into a sign, a mantissa and an exponent, while
  their bit patterns are read as magnitudes; both give one reading (`ofFloat_eq`). The mantissa of
  a double has all of its 53 bits unless the exponent is the least (`Normalized`), so of two
  doubles the exponents decide which is greater and then the mantissas, and that is the order of
  the exact numbers (`lt_iff`, `le_iff`). Truncation gives the whole part of the exact number
  (`truncate?_eq_floor`).
-/

import Mathlib.Data.Rat.Floor
import RuleExpr.Proofs.Binary64.Nearest
import RuleExpr.Proofs.Finite.Integer

namespace RuleExpr.Binary64

open Float.Model Float.Model.UnpackedFloat

/-- All bits of the mantissa are in use, or the exponent cannot be lower. -/
structure Normalized (m : ℕ) (e : ℤ) : Prop where
  bits : m < 2 ^ 53
  least : -1074 ≤ e
  full : 2 ^ 52 ≤ m ∨ e = -1074

def Canonical : UnpackedFloat → Prop
  | .finite _ m e _ => Normalized m e
  | .zero _ | .infinity _ | .notANumber => True

/-- Zero where there is no number. -/
def value : UnpackedFloat → ℚ
  | .finite s m e _ => s.apply m * 2 ^ e
  | .zero _ | .infinity _ | .notANumber => 0

def toRat (x : Float) : ℚ := value x.toModel.unpack

theorem value_zero (s : Sign) : value (.zero s) = 0 := rfl

theorem value_finite (s : Sign) {m : ℕ} (hm : 0 < m) (e : ℤ) : value (.finite s m e hm) = s.apply m * 2 ^ e := rfl

theorem value_positive {m : ℕ} (hm : 0 < m) (e : ℤ) : value (.finite .positive m e hm) = m * 2 ^ e := rfl

theorem value_negative {m : ℕ} (hm : 0 < m) (e : ℤ) : value (.finite .negative m e hm) = -(m * 2 ^ e) := by
  show ((-m : ℤ) : ℚ) * 2 ^ e = _
  push_cast
  rw [neg_mul]

theorem magnitude_pos {m : ℕ} (hm : 0 < m) (e : ℤ) : (0 : ℚ) < m * 2 ^ e :=
  mul_pos (by exact_mod_cast hm) (two_zpow_pos e)

theorem value_positive_pos {m : ℕ} (hm : 0 < m) (e : ℤ) : 0 < value (.finite .positive m e hm) := magnitude_pos hm e

theorem value_negative_neg {m : ℕ} (hm : 0 < m) (e : ℤ) : value (.finite .negative m e hm) < 0 := by
  rw [value_negative]
  exact neg_lt_zero.mpr (magnitude_pos hm e)

theorem Canonical.representable {u : UnpackedFloat} (h : Canonical u) : Representable (value u) := by
  cases u with
  | finite s m e hm =>
    obtain ⟨hbits, hleast, -⟩ : Normalized m e := h
    refine ⟨e, hleast, s.apply m, ?_, rfl⟩
    cases s <;> simp only [Sign.apply, abs_neg, Nat.abs_cast] <;> omega
  | zero s => exact .zero
  | infinity s => exact .zero
  | notANumber => exact .zero

/-! ## Bit patterns -/

def isNegative : Sign → Bool
  | .negative => true
  | .positive => false

def reading : UnpackedFloat → Reading
  | .finite s m e _ => .finite (isNegative s) ⟨m, e⟩
  | .zero s => .finite (isNegative s) ⟨0, -1074⟩
  | .infinity s => .infinite (isNegative s)
  | .notANumber => .nan

theorem toNat_unpackExponent (b : BitVec Format.binary64.numBits) :
    (unpackExponent b).toNat = b.toNat / hiddenBit % 2048 := by
  delta unpackExponent
  simp only [BitVec.toNat_cast, BitVec.extractLsb_toNat, hiddenBit]
  simp [Nat.shiftRight_eq_div_pow]

theorem toNat_unpackMantissa (b : BitVec Format.binary64.numBits) : (unpackMantissa b).toNat = b.toNat % hiddenBit := by
  delta unpackMantissa
  simp only [BitVec.toNat_cast, BitVec.extractLsb_toNat, hiddenBit]
  simp

theorem toNat_unpackSign (b : BitVec Format.binary64.numBits) : (unpackSign b).toNat = b.toNat / signBit := by
  have hb : b.toNat < 2 ^ 64 := b.isLt
  delta unpackSign
  simp only [BitVec.toNat_cast, BitVec.extractLsb_toNat, signBit]
  simp [Nat.shiftRight_eq_div_pow]
  omega

theorem toNat_hidden_append (m : BitVec 52) : (1#1 ++ m).toNat = hiddenBit + m.toNat := by
  rw [BitVec.toNat_append, ← Nat.shiftLeft_add_eq_or_of_lt m.isLt]
  rfl

theorem isNegative_ofBitVec (b : BitVec 1) : isNegative (Sign.ofBitVec b) = decide (b.toNat = 1) := by
  have h : ∀ b : BitVec 1, isNegative (Sign.ofBitVec b) = decide (b.toNat = 1) := by decide
  exact h b

theorem ofBits_eq (b : BitVec Format.binary64.numBits) :
    Reading.ofBits b.toNat = reading (UnpackedFloat.unpack .binary64 b) := by
  have hbias : Format.binary64.exponentBias = 1023 := rfl
  have hones : b.toNat / hiddenBit % 2048 = 2047 ↔ unpackExponent b = -1#_ := by
    rw [← toNat_unpackExponent, ← BitVec.toNat_inj]
    rfl
  have hleast : b.toNat / hiddenBit % 2048 = 0 ↔ unpackExponent b = 0#_ := by
    rw [← toNat_unpackExponent, ← BitVec.toNat_inj]
    rfl
  have hzero : b.toNat % hiddenBit = 0 ↔ unpackMantissa b = 0#_ := by
    rw [← toNat_unpackMantissa, ← BitVec.toNat_inj]
    rfl
  have hsign : decide (b.toNat / signBit = 1) = isNegative (Sign.ofBitVec (unpackSign b)) := by
    rw [isNegative_ofBitVec, toNat_unpackSign]
  unfold Reading.ofBits UnpackedFloat.unpack
  dsimp only
  rw [hsign]
  by_cases hinf : unpackExponent b = -1#_
  · rw [if_pos (hones.mpr hinf), if_pos hinf]
    by_cases hm : unpackMantissa b = 0#_
    · rw [if_pos (hzero.mpr hm), if_pos hm]
      rfl
    · rw [if_neg (mt hzero.mp hm), if_neg hm]
      rfl
  rw [if_neg (mt hones.mp hinf), if_neg hinf]
  by_cases hsub : unpackExponent b = 0#_
  · rw [if_pos (hleast.mpr hsub), if_pos hsub]
    by_cases hm : unpackMantissa b = 0#_
    · rw [dif_pos hm, hzero.mpr hm]
      rfl
    · rw [dif_neg hm, ← toNat_unpackMantissa, hsub, hbias]
      rfl
  · rw [if_neg (mt hleast.mp hsub), if_neg hsub, ← toNat_unpackMantissa, ← toNat_unpackExponent,
      ← toNat_hidden_append, hbias]
    rfl

theorem ofFloat_eq (x : Float) : Reading.ofFloat x = reading x.toModel.unpack := ofBits_eq _

theorem normalized_of_ofBits {n : ℕ} {negative : Bool} {m : Magnitude} (h : Reading.ofBits n = .finite negative m) :
    Normalized m.mantissa m.exponent := by
  have hhidden : hiddenBit = 2 ^ 52 := rfl
  have hfraction : n % hiddenBit < hiddenBit := Nat.mod_lt _ (by decide)
  unfold Reading.ofBits at h
  dsimp only at h
  split at h
  · split at h <;> cases h
  split at h
  · cases h
    exact ⟨show n % hiddenBit < _ by omega, le_rfl, .inr rfl⟩
  · cases h
    exact ⟨show hiddenBit + n % hiddenBit < _ by omega, show (-1074 : ℤ) ≤ _ - 1075 by omega,
      .inl (show _ ≤ hiddenBit + _ by omega)⟩

theorem canonical_unpack (x : Float) : Canonical x.toModel.unpack := by
  have h := ofFloat_eq x
  cases hu : x.toModel.unpack with
  | finite s m e hm =>
    rw [hu] at h
    exact normalized_of_ofBits h
  | zero s => trivial
  | infinity s => trivial
  | notANumber => trivial

theorem representable_toRat (x : Float) : Representable (toRat x) := (canonical_unpack x).representable

/-! ## The order -/

theorem Normalized.lt_of_exponent_lt {m n : ℕ} {e f : ℤ} (hm : Normalized m e) (hn : Normalized n f) (h : e < f) :
    (m : ℚ) * 2 ^ e < n * 2 ^ f := by
  have hfull : 2 ^ 52 ≤ n := hn.full.resolve_right (hm.least.trans_lt h).ne'
  have hm' : (m : ℚ) < 2 ^ 53 := by exact_mod_cast hm.bits
  have hn' : (2 : ℚ) ^ 52 ≤ n := by exact_mod_cast hfull
  have hstep : (2 : ℚ) ^ (e + 1) ≤ 2 ^ f := two_zpow_le h
  have hpos := two_zpow_pos e
  rw [two_zpow_add_one] at hstep
  calc (m : ℚ) * 2 ^ e < 2 ^ 53 * 2 ^ e := by gcongr
    _ = 2 ^ 52 * (2 * 2 ^ e) := by ring
    _ ≤ n * 2 ^ f := by gcongr

theorem Normalized.compare_eq {m n : ℕ} {e f : ℤ} (hm : Normalized m e) (hn : Normalized n f) :
    (compare e f).then (compare m n) = compare ((m : ℚ) * 2 ^ e) (n * 2 ^ f) := by
  have hpos := two_zpow_pos e
  rcases lt_trichotomy e f with h | rfl | h
  · rw [compare_lt_iff_lt.mpr h, compare_lt_iff_lt.mpr (hm.lt_of_exponent_lt hn h)]
    rfl
  · rw [compare_eq_iff_eq.mpr rfl]
    show compare m n = _
    rcases lt_trichotomy m n with h | rfl | h
    · rw [compare_lt_iff_lt.mpr h, compare_lt_iff_lt.mpr (by gcongr)]
    · rw [compare_eq_iff_eq.mpr rfl, compare_eq_iff_eq.mpr rfl]
    · rw [compare_gt_iff_gt.mpr h, compare_gt_iff_gt.mpr (by gcongr)]
  · rw [compare_gt_iff_gt.mpr h, compare_gt_iff_gt.mpr (hn.lt_of_exponent_lt hm h)]
    rfl

theorem compare_neg (x y : ℚ) : compare (-x) (-y) = (compare x y).swap := by
  rcases lt_trichotomy x y with h | rfl | h
  · rw [compare_lt_iff_lt.mpr h, compare_gt_iff_gt.mpr (neg_lt_neg h)]
    rfl
  · rw [compare_eq_iff_eq.mpr rfl, compare_eq_iff_eq.mpr rfl]
    rfl
  · rw [compare_gt_iff_gt.mpr h, compare_lt_iff_lt.mpr (neg_lt_neg h)]
    rfl

theorem compare_eq {u v : UnpackedFloat} (hu : Canonical u) (hv : Canonical v) (hu' : u.isFinite = true)
    (hv' : v.isFinite = true) : UnpackedFloat.compare u v = some (compare (value u) (value v)) := by
  have hlt {x y : ℚ} (h : x < y) : some Ordering.lt = some (compare x y) := congrArg some (compare_lt_iff_lt.mpr h).symm
  have hgt {x y : ℚ} (h : y < x) : some Ordering.gt = some (compare x y) := congrArg some (compare_gt_iff_gt.mpr h).symm
  cases u with
  | infinity s => cases hu'
  | notANumber => cases hu'
  | zero s =>
    cases v with
    | infinity t => cases hv'
    | notANumber => cases hv'
    | zero t => exact congrArg some (compare_eq_iff_eq.mpr rfl).symm
    | finite t n f hn =>
      cases t with
      | negative => exact hgt (value_negative_neg hn f)
      | positive => exact hlt (value_positive_pos hn f)
  | finite s m e hm =>
    cases v with
    | infinity t => cases hv'
    | notANumber => cases hv'
    | zero t =>
      cases s with
      | negative => exact hlt (value_negative_neg hm e)
      | positive => exact hgt (value_positive_pos hm e)
    | finite t n f hn =>
      have hmagnitude := Normalized.compare_eq hu hv
      cases s <;> cases t
      · rw [value_negative, value_negative, compare_neg, ← hmagnitude]
        rfl
      · exact hlt ((value_negative_neg hm e).trans (value_positive_pos hn f))
      · exact hgt ((value_negative_neg hn f).trans (value_positive_pos hm e))
      · rw [value_positive, value_positive, ← hmagnitude]
        rfl

section Order

variable {x y : Float} (hx : x.isFinite = true) (hy : y.isFinite = true)
include hx hy

theorem lt_iff : x < y ↔ toRat x < toRat y := by
  have h := compare_eq (canonical_unpack x) (canonical_unpack y) hx hy
  have hdef : x < y ↔ UnpackedFloat.compare x.toModel.unpack y.toModel.unpack = some .lt :=
    decide_eq_true_iff.trans beq_iff_eq
  rw [hdef, h, Option.some_inj, compare_lt_iff_lt]
  rfl

theorem le_iff : x ≤ y ↔ toRat x ≤ toRat y := by
  have h := compare_eq (canonical_unpack x) (canonical_unpack y) hx hy
  have hdef : x ≤ y ↔ (UnpackedFloat.compare x.toModel.unpack y.toModel.unpack).any (·.isLE) = true :=
    decide_eq_true_iff
  rw [hdef, h, Option.any_some, Ordering.isLE_iff_ne_gt]
  exact (not_congr compare_gt_iff_gt).trans not_lt

end Order

/-! ## Truncation -/

theorem floor_eq (m : Magnitude) : (m.floor : ℤ) = ⌊(m.mantissa : ℚ) * 2 ^ m.exponent⌋ := by
  have hpow : (m.mantissa : ℚ) * 2 ^ m.exponent = (m.num : ℚ) / m.den := by
    rcases m with ⟨n, e⟩
    simp only [Magnitude.num, Magnitude.den, Nat.shiftLeft_eq, one_mul]
    rcases le_total 0 e with he | he
    · obtain ⟨k, rfl⟩ := Int.eq_ofNat_of_zero_le he
      simp
    · obtain ⟨k, hk⟩ := Int.exists_eq_neg_ofNat he
      simp [hk]
      rfl
  rw [hpow, Magnitude.floor, Rat.floor_natCast_div_natCast]
  rfl

theorem truncate?_eq_floor {x : Float} (hx : x.isFinite = true) (hpos : 0 ≤ toRat x) :
    truncate? x = some ⌊toRat x⌋ := by
  have hx' : x.toModel.unpack.isFinite = true := hx
  unfold truncate? toRat at *
  rw [ofFloat_eq]
  generalize x.toModel.unpack = u at *
  cases u with
  | infinity s => cases hx'
  | notANumber => cases hx'
  | zero s =>
    have hfloor : Magnitude.floor ⟨0, -1074⟩ = 0 := by decide
    show some (if isNegative s then -(Magnitude.floor ⟨0, -1074⟩ : ℤ) else Magnitude.floor ⟨0, -1074⟩) = some ⌊(0 : ℚ)⌋
    rw [hfloor, Int.floor_zero]
    cases s <;> rfl
  | finite s m e hm =>
    cases s with
    | negative => exact absurd hpos (not_le.mpr (value_negative_neg hm e))
    | positive =>
      rw [value_positive, ← floor_eq ⟨m, e⟩]
      rfl

end RuleExpr.Binary64
