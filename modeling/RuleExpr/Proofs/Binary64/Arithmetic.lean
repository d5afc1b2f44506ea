/-
  RuleExpr.Proofs.Binary64.Arithmetic — the results of operations on finite doubles.

  A product, a sum or a difference of finite doubles is the double nearest to the exact result,
  if it is finite at all (`Rounded`); and it is finite up to `2 ^ 1023`. In particular an exact
  result that is itself representable comes out unchanged (`Rounded.toRat_eq`), as whole numbers
  below `2 ^ 53` do (`toRat_ofNat`).
-/

import RuleExpr.Proofs.Binary64.Packing
import RuleExpr.Proofs.Binary64.Rounding

namespace RuleExpr.Binary64

open Float.Model Float.Model.UnpackedFloat

/-! ## Unpacked operations -/

theorem rounds_zero (s : Sign) : Rounds 0 (.zero s) := ⟨trivial, rfl, .self .zero⟩

theorem rounds_self {u : UnpackedFloat} (hu : Canonical u) (hu' : u.isFinite = true) : Rounds (value u) u :=
  ⟨hu, hu', .self hu.representable⟩

theorem apply_mul (s t : Sign) (m n : ℕ) : (s * t).apply (m * n : ℕ) = s.apply m * t.apply n := by
  cases s <;> cases t <;> simp only [Sign.apply] <;> push_cast <;> ring

/-- One of the mantissas has all its bits, or both exponents are the least. -/
theorem le_target_mul {m n : ℕ} {e f : ℤ} (hm : 0 < m) (hn : 0 < n) (hme : Normalized m e) (hnf : Normalized n f) :
    e + f ≤ target (m * n) (e + f) := by
  unfold target
  by_cases hfull : 2 ^ 52 ≤ m * n
  · have hlog := (Nat.le_log2 (by positivity)).mpr hfull
    omega
  · have he := hme.full.resolve_left fun h => hfull (h.trans (Nat.le_mul_of_pos_right m hn))
    have hf := hnf.full.resolve_left fun h => hfull (h.trans (Nat.le_mul_of_pos_left n hm))
    omega

theorem apply_decreaseExponent (s : Sign) (m : ℕ) {e t : ℤ} (h : t ≤ e) :
    (s.apply (decreaseExponent m e t).1 : ℚ) * 2 ^ t = s.apply m * 2 ^ e := by
  have ht : t = e - (e - t).toNat := by omega
  rw [← apply_shiftLeft s m (e - t).toNat e, ← ht]
  rfl

section Unpacked

variable {u v : UnpackedFloat} (hu : Canonical u) (hv : Canonical v) (hu' : u.isFinite = true) (hv' : v.isFinite = true)
include hu hv hu' hv'

theorem rounds_mul : Rounds (value u * value v) (UnpackedFloat.mul .binary64 u v) := by
  cases u with
  | infinity s => cases hu'
  | notANumber => cases hu'
  | zero s =>
    rw [value_zero, zero_mul]
    cases v with
    | infinity t => cases hv'
    | notANumber => cases hv'
    | zero t => exact rounds_zero _
    | finite t n f hn => exact rounds_zero _
  | finite s m e hm =>
    cases v with
    | infinity t => cases hv'
    | notANumber => cases hv'
    | zero t =>
      rw [value_zero, mul_zero]
      exact rounds_zero _
    | finite t n f hn =>
      have hproduct : value (.finite s m e hm) * value (.finite t n f hn) =
          (s * t).apply (m * n : ℕ) * 2 ^ (e + f) := by
        rw [apply_mul, two_zpow_add, value_finite, value_finite]
        push_cast
        ring
      rw [hproduct]
      exact rounds_roundWithAccuracy (s * t) (Nat.mul_pos hm hn) (le_target_mul hm hn hu hv)

theorem rounds_add : Rounds (value u + value v) (UnpackedFloat.add .binary64 u v) := by
  cases u with
  | infinity s => cases hu'
  | notANumber => cases hu'
  | zero s =>
    rw [value_zero, zero_add]
    cases v with
    | infinity t => cases hv'
    | notANumber => cases hv'
    | zero t => cases s <;> cases t <;> exact rounds_zero _
    | finite t n f hn => exact rounds_self hv hv'
  | finite s m e hm =>
    cases v with
    | infinity t => cases hv'
    | notANumber => cases hv'
    | zero t =>
      rw [value_zero, add_zero]
      exact rounds_self hu hu'
    | finite t n f hn =>
      have hsum : value (.finite s m e hm) + value (.finite t n f hn) =
          (s.apply (decreaseExponent m e (min e f)).1 + t.apply (decreaseExponent n f (min e f)).1 : ℤ) *
            2 ^ min e f := by
        rw [Int.cast_add, add_mul, apply_decreaseExponent s m (min_le_left e f),
          apply_decreaseExponent t n (min_le_right e f)]
        rfl
      rw [hsum]
      exact rounds_normalize _ _ _

end Unpacked

theorem value_neg (u : UnpackedFloat) : value u.neg = -value u := by
  cases u with
  | finite s m e hm =>
    cases s with
    | negative =>
      rw [value_negative, neg_neg]
      rfl
    | positive => exact value_negative hm e
  | zero s => exact neg_zero.symm
  | infinity s => exact neg_zero.symm
  | notANumber => exact neg_zero.symm

theorem Canonical.neg {u : UnpackedFloat} (h : Canonical u) : Canonical u.neg := by
  cases u <;> exact h

theorem sub_eq_add (u v : UnpackedFloat) : UnpackedFloat.sub .binary64 u v = UnpackedFloat.add .binary64 u v.neg := by
  cases u with
  | finite s m e hm =>
    cases v with
    | finite t n f hn =>
      have happly : ∀ k : ℕ, s.apply (decreaseExponent m e (min e f)).1 - t.apply k =
          s.apply (decreaseExponent m e (min e f)).1 + (-t).apply k := by
        intro k
        cases t with
        | negative => exact sub_neg_eq_add _ _
        | positive => exact Int.sub_eq_add_neg
      exact congrArg (UnpackedFloat.normalize .binary64 · _ _) (happly _)
    | zero t => rfl
    | infinity t => rfl
    | notANumber => rfl
  | zero s => cases v <;> rfl
  | infinity s => cases v <;> rfl
  | notANumber => cases v <;> rfl

/-! ## Packed results -/

/-- No result becomes infinite up to here. -/
def limit : ℚ := 2 ^ (1023 : ℤ)

/-- The double nearest to `q`, or an infinity where `q` is out of range. -/
structure Rounded (q : ℚ) (z : Float) : Prop where
  nearest : z.isFinite = true → IsNearest q (toRat z)
  isFinite : |q| ≤ limit → z.isFinite = true

theorem representable_limit : Representable limit := ⟨970, .two_zpow (t := 970) (j := 53) (by norm_num) le_rfl⟩

theorem abs_value_le {q : ℚ} {u : UnpackedFloat} (h : Rounds q u) (hq : |q| ≤ limit) : |value u| ≤ limit := by
  rw [abs_le] at hq ⊢
  exact ⟨h.nearest.le_of_ge representable_limit.neg hq.1, h.nearest.le_of_le representable_limit hq.2⟩

theorem exponent_le_of_abs_value_le {s : Sign} {m : ℕ} {e : ℤ} {hm : 0 < m} (h : Normalized m e)
    (hvalue : |value (.finite s m e hm)| ≤ limit) : e ≤ 971 := by
  by_contra hlt
  have hfull : (2 : ℚ) ^ 52 ≤ m := by exact_mod_cast h.full.resolve_right (by omega)
  have habs : |value (.finite s m e hm)| = m * 2 ^ e := by
    cases s with
    | negative => rw [value_negative, abs_neg, abs_of_pos (magnitude_pos hm e)]
    | positive => rw [value_positive, abs_of_pos (magnitude_pos hm e)]
  have hbig : limit < m * 2 ^ e := by
    calc limit < 2 ^ (52 + e) := zpow_lt_zpow_right₀ (by norm_num) (by omega)
      _ = 2 ^ 52 * 2 ^ e := by rw [two_zpow_add]; rfl
      _ ≤ m * 2 ^ e := mul_le_mul_of_nonneg_right hfull (two_zpow_pos e).le
  exact absurd hvalue (not_le.mpr (habs ▸ hbig))

theorem rounded_pack {q : ℚ} {u : UnpackedFloat} (h : Rounds q u) : Rounded q (.ofModel (.pack u)) := by
  obtain ⟨hcanonical, hfinite, hnearest⟩ := id h
  by_cases he : ExponentLe 971 u
  · have hunpack := unpack_pack hcanonical he
    refine ⟨fun _ => ?_, fun _ => ?_⟩
    · show IsNearest q (value (Float.Model.pack u).unpack)
      rwa [hunpack]
    · show (Float.Model.pack u).unpack.isFinite = true
      rw [hunpack]
      exact hfinite
  · cases u with
    | infinity s => cases hfinite
    | notANumber => cases hfinite
    | zero s => exact absurd trivial he
    | finite s m e hm =>
      have hunpack := unpack_pack_overflow s hm (not_le.mp he)
      refine ⟨fun hz => ?_, fun hq => ?_⟩
      · have hz' : (Float.Model.pack (.finite s m e hm)).unpack.isFinite = true := hz
        rw [hunpack] at hz'
        cases hz'
      · exact absurd (exponent_le_of_abs_value_le hcanonical (abs_value_le h hq)) he

theorem Rounded.toRat_eq {q : ℚ} {z : Float} (h : Rounded q z) (hq : Representable q) (hmax : |q| ≤ limit) :
    toRat z = q :=
  (h.nearest (h.isFinite hmax)).eq_self hq

section Operations

variable {x y : Float} (hx : x.isFinite = true) (hy : y.isFinite = true)
include hx hy

theorem rounded_mul : Rounded (toRat x * toRat y) (x * y) :=
  rounded_pack (rounds_mul (canonical_unpack x) (canonical_unpack y) hx hy)

theorem rounded_add : Rounded (toRat x + toRat y) (x + y) :=
  rounded_pack (rounds_add (canonical_unpack x) (canonical_unpack y) hx hy)

theorem rounded_sub : Rounded (toRat x - toRat y) (x - y) := by
  have hy' : y.toModel.unpack.neg.isFinite = true := by
    have h : y.toModel.unpack.isFinite = true := hy
    cases hv : y.toModel.unpack <;> rw [hv] at h <;> exact h
  have hadd := rounds_add (canonical_unpack x) (canonical_unpack y).neg hx hy'
  rw [value_neg, ← sub_eq_add, ← sub_eq_add_neg] at hadd
  exact rounded_pack hadd

end Operations

theorem isFinite_of_pack {u : UnpackedFloat} (h : (Float.ofModel (.pack u)).isFinite = true) : u.isFinite = true := by
  have h' : (Float.Model.pack u).unpack.isFinite = true := h
  cases u with
  | finite s m e hm => rfl
  | zero s => rfl
  | infinity s =>
    have hunpack : (Float.Model.pack (.infinity s)).unpack = .infinity s := unpack_packedInfinity s
    rwa [hunpack] at h'
  | notANumber => exact h'

theorem isFinite_of_add {x y : Float} (h : (x + y).isFinite = true) : x.isFinite = true ∧ y.isFinite = true := by
  have hsum : (UnpackedFloat.add .binary64 x.toModel.unpack y.toModel.unpack).isFinite = true := isFinite_of_pack h
  show x.toModel.unpack.isFinite = true ∧ y.toModel.unpack.isFinite = true
  generalize x.toModel.unpack = u at *
  generalize y.toModel.unpack = v at *
  cases u with
  | finite s m e hm => cases v <;> first | exact ⟨rfl, rfl⟩ | cases hsum
  | zero s => cases v <;> first | exact ⟨rfl, rfl⟩ | cases hsum
  | infinity s =>
    cases v with
    | infinity t => cases s <;> cases t <;> cases hsum
    | _ => cases hsum
  | notANumber => cases hsum

/-! ## Whole numbers -/

theorem toRat_one : toRat one = 1 := by
  rw [toRat, unpack_one, value_positive]
  norm_num

theorem representable_natCast {n : ℕ} (hn : n ≤ 2 ^ 53) : Representable n :=
  ⟨0, by norm_num, n, by rw [Nat.abs_cast]; exact_mod_cast hn, by rw [zpow_zero, mul_one, Int.cast_natCast]⟩

theorem natCast_le_limit {n : ℕ} (hn : n ≤ 2 ^ 53) : |(n : ℚ)| ≤ limit := by
  rw [Nat.abs_cast]
  calc (n : ℚ) ≤ 2 ^ (53 : ℤ) := by exact_mod_cast hn
    _ ≤ limit := two_zpow_le (by norm_num)

theorem rounded_toFloat (n : UInt64) : Rounded n.toNat n.toFloat := by
  have h := rounds_normalize n.toNat 0 .positive
  rw [zpow_zero, mul_one, Int.cast_natCast] at h
  exact rounded_pack h

theorem toRat_toFloat {n : UInt64} (hn : n.toNat ≤ 2 ^ 53) : toRat n.toFloat = n.toNat :=
  (rounded_toFloat n).toRat_eq (representable_natCast hn) (natCast_le_limit hn)

theorem toRat_ofNat {n : ℕ} (hn : n < 2 ^ 53) : toRat (Float.ofNat n) = n := by
  have hword : n.toUInt64.toNat = n := by
    rw [UInt64.toNat_ofNat']
    omega
  have hexact : toRat n.toUInt64.toFloat = n := by
    rw [toRat_toFloat (by omega), hword]
  have hfinite : n.toUInt64.toFloat.isFinite = true :=
    (rounded_toFloat _).isFinite (natCast_le_limit (by omega))
  have hproduct := rounded_mul hfinite (show one.isFinite = true from rfl)
  rw [hexact, toRat_one, mul_one, ← ofNat_eq hn] at hproduct
  exact hproduct.toRat_eq (representable_natCast hn.le) (natCast_le_limit hn.le)

end RuleExpr.Binary64
