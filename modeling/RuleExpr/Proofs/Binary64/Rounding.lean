/-
  RuleExpr.Proofs.Binary64.Rounding — rounding unpacked numbers gives the nearest ones.

  A mantissa that is too long is shifted right, bit by bit. Two bits more are kept: the last bit
  shifted out, and whether any bit before it was set. They tell a number below the half from one
  above (`Extends`), so that the mantissa that is rounded with them is off by at most a half
  (`Extends.abs_sub_le`). Where the mantissa has 53 bits, or the exponent is the least, no
  representable number is closer (`isNearest_of_abs_sub_le`).

  The rounded mantissa may have one bit more than fits, and then it is a power of two and is
  shifted once again (`normalized_second`). So rounding gives a canonical number, the nearest one
  (`rounds_roundWithAccuracy`), provided the exponent is not above its target; `rounds_round`
  lowers it first.
-/

import RuleExpr.Proofs.Binary64.Value

namespace RuleExpr.Binary64

open Float.Model Float.Model.UnpackedFloat

/-! ## The bits shifted out -/

def half (em : ExtendedMantissa) : ℚ := if em.roundBit then 1 / 2 else 0

/-- The mantissa with its two further bits is all that rounding needs to know of `x`. -/
structure Extends (em : ExtendedMantissa) (x : ℚ) : Prop where
  lower : em.mantissa + half em ≤ x
  upper : x < em.mantissa + half em + 1 / 2
  rest : em.stickyBit = false → x = em.mantissa + half em

namespace Extends

variable {em : ExtendedMantissa} {x : ℚ}

theorem ofMantissa (m : ℕ) : Extends (.ofMantissaAndAccuracy m .exact) m := by
  constructor <;> simp [ExtendedMantissa.ofMantissaAndAccuracy, half]

theorem mantissa_le (h : Extends em x) : em.mantissa ≤ x := by
  have hlower := h.lower
  rw [half] at hlower
  split at hlower <;> linarith

theorem lt_mantissa_add_one (h : Extends em x) : x < em.mantissa + 1 := by
  have hupper := h.upper
  rw [half] at hupper
  split at hupper <;> linarith

theorem shiftRightOne (h : Extends em x) : Extends em.shiftRightOne (x / 2) := by
  have hlower := h.mantissa_le
  have hupper := h.lt_mantissa_add_one
  have hhalves : (em.mantissa : ℚ) / 2 = (em.mantissa / 2 : ℕ) + half em.shiftRightOne := by
    have hm : (em.mantissa : ℚ) = 2 * (em.mantissa / 2 : ℕ) + (em.mantissa % 2 : ℕ) := by
      exact_mod_cast (Nat.div_add_mod em.mantissa 2).symm
    rcases Nat.mod_two_eq_zero_or_one em.mantissa with hbit | hbit <;>
      simp only [half, ExtendedMantissa.shiftRightOne, hbit] at hm ⊢ <;> norm_num at hm ⊢ <;> linarith
  refine ⟨?_, ?_, fun hsticky => ?_⟩
  · show ((em.mantissa / 2 : ℕ) : ℚ) + _ ≤ _
    linarith
  · show _ < ((em.mantissa / 2 : ℕ) : ℚ) + _ + _
    linarith
  · obtain ⟨hround, hsticky⟩ : em.roundBit = false ∧ em.stickyBit = false := Bool.or_eq_false_iff.mp hsticky
    have hx := h.rest hsticky
    rw [half, hround, if_neg (by decide), add_zero] at hx
    rw [hx, hhalves]
    rfl

theorem shiftRight (h : Extends em x) (n : ℕ) : Extends (em >>> n) (x / 2 ^ n) := by
  show Extends (n.repeat ExtendedMantissa.shiftRightOne em) _
  induction n with
  | zero => rwa [pow_zero, div_one]
  | succ n ih =>
    rw [pow_succ, ← div_div]
    exact ih.shiftRightOne

theorem mantissa_le_roundedMantissa (em : ExtendedMantissa) : em.mantissa ≤ em.roundedMantissa := by
  rcases em with ⟨m, r, s⟩
  cases r <;> cases s <;>
    simp only [ExtendedMantissa.roundedMantissa, ExtendedMantissa.accuracy, Accuracy.roundToNearestEven] <;> omega

theorem le_roundedMantissa (h : Extends em x) {n : ℕ} (hn : n ≤ x) : n ≤ em.roundedMantissa := by
  have hlt : (n : ℚ) < em.mantissa + 1 := hn.trans_lt h.lt_mantissa_add_one
  have hlt' : n < em.mantissa + 1 := by exact_mod_cast hlt
  exact (Nat.lt_succ_iff.mp hlt').trans (mantissa_le_roundedMantissa em)

theorem roundedMantissa_le_of_lt (h : Extends em x) {n : ℕ} (hn : x < n) : em.roundedMantissa ≤ n := by
  have hlt : (em.mantissa : ℚ) < n := h.mantissa_le.trans_lt hn
  have hlt' : em.mantissa < n := by exact_mod_cast hlt
  exact (roundedMantissa_le em).trans hlt'

theorem abs_sub_le (h : Extends em x) : |em.roundedMantissa - x| ≤ 1 / 2 := by
  obtain ⟨hlower, hupper, hrest⟩ := h
  rcases em with ⟨m, r, s⟩
  rw [abs_le]
  cases r with
  | false =>
    have hdown : ExtendedMantissa.roundedMantissa ⟨m, false, s⟩ = m := by cases s <;> rfl
    simp only [half, Bool.false_eq_true, if_false, add_zero] at hlower hupper
    rw [hdown]
    constructor <;> linarith
  | true =>
    simp only [half, if_true] at hlower hupper hrest
    cases s with
    | false =>
      have hx := hrest rfl
      have hup : ExtendedMantissa.roundedMantissa ⟨m, true, false⟩ = m + m % 2 := rfl
      rw [hup, hx]
      rcases Nat.mod_two_eq_zero_or_one m with hbit | hbit <;> rw [hbit] <;> push_cast <;> constructor <;> linarith
    | true =>
      have hup : ExtendedMantissa.roundedMantissa ⟨m, true, true⟩ = m + 1 := rfl
      rw [hup]
      push_cast
      constructor <;> linarith

end Extends

/-! ## Nearest numbers -/

theorem abs_sub_le_of_abs_sub_le {m : ℕ} {x : ℚ} (hx : |m - x| ≤ 1 / 2) (j : ℤ) : |m - x| ≤ |j - x| := by
  by_cases hj : j = m
  · rw [hj, Int.cast_natCast]
  · have hone : (1 : ℚ) ≤ |((j - m : ℤ) : ℚ)| := by exact_mod_cast Int.one_le_abs (sub_ne_zero.mpr hj)
    push_cast at hone
    have htri := abs_sub_le (j : ℚ) x m
    rw [abs_sub_comm x] at htri
    linarith

theorem isNearest_of_abs_sub_le {t : ℤ} {m : ℕ} {x : ℚ} (ht : -1074 ≤ t) (hm : m ≤ 2 ^ 53) (hx : |m - x| ≤ 1 / 2)
    (hfull : 2 ^ 52 ≤ x ∨ t = -1074) : IsNearest (x * 2 ^ t) (m * 2 ^ t) := by
  have hpos := two_zpow_pos t
  have hgrid : ∀ j : ℤ, |m * 2 ^ t - x * 2 ^ t| ≤ |j * 2 ^ t - x * 2 ^ t| := by
    intro j
    rw [← sub_mul, ← sub_mul, abs_mul, abs_mul]
    exact mul_le_mul_of_nonneg_right (abs_sub_le_of_abs_sub_le hx j) (abs_nonneg _)
  refine ⟨⟨t, ht, m, by rw [Nat.abs_cast]; exact_mod_cast hm, rfl⟩, fun {y} hy => ?_⟩
  obtain ⟨f, hf, k, hk, rfl⟩ := hy
  rcases le_or_gt t f with htf | hft
  · obtain ⟨j, rfl⟩ := Int.le.dest htf
    rw [mul_two_zpow_add]
    exact hgrid _
  · -- numbers of a finer grid end before all 53 bits of this one are in use
    have hx52 : 2 ^ 52 ≤ x := hfull.resolve_right (by omega)
    have hk' : (k : ℚ) ≤ 2 ^ 53 := by exact_mod_cast (le_abs_self k).trans hk
    have hfiner : (2 : ℚ) ^ (f + 1) ≤ 2 ^ t := two_zpow_le hft
    have hfpos := two_zpow_pos f
    rw [two_zpow_add_one] at hfiner
    have hy : (k : ℚ) * 2 ^ f ≤ (2 ^ 52 : ℤ) * 2 ^ t := by
      push_cast
      nlinarith
    have hpow : ((2 ^ 52 : ℤ) : ℚ) * 2 ^ t ≤ x * 2 ^ t :=
      mul_le_mul_of_nonneg_right (by exact_mod_cast hx52) hpos.le
    refine (hgrid (2 ^ 52)).trans ?_
    rw [abs_of_nonpos (by linarith), abs_of_nonpos (by linarith)]
    linarith

/-- The exponent at which 53 bits are left, or the least. -/
def target (m : ℕ) (e : ℤ) : ℤ := max (m.log2 + e - 52) (-1074)

theorem shiftToTargetExponent_eq (m : ℕ) (e : ℤ) : shiftToTargetExponent .binary64 m e .exact =
    (ExtendedMantissa.ofMantissaAndAccuracy m .exact >>> (target m e - e).toNat, e + (target m e - e).toNat) := by
  rw [target, ← targetExponent_eq]
  rfl

/-! ## The first shift -/

section First

variable {m : ℕ} {e : ℤ}

theorem extends_first (he : e ≤ target m e) :
    Extends (shiftToTargetExponent .binary64 m e .exact).1 (m * 2 ^ (e - target m e)) := by
  obtain ⟨n, hn⟩ := Int.le.dest he
  have hshift : (target m e - e).toNat = n := by omega
  have hneg : e - target m e = -(n : ℤ) := by omega
  rw [shiftToTargetExponent_eq, hshift, hneg, zpow_neg, zpow_natCast, ← div_eq_mul_inv]
  exact (Extends.ofMantissa m).shiftRight n

theorem full_first (hm : 0 < m) : (2 : ℚ) ^ 52 ≤ m * 2 ^ (e - target m e) ∨ target m e = -1074 := by
  unfold target
  refine or_iff_not_imp_right.mpr fun hmin => ?_
  have hexponent : e - max (m.log2 + e - 52) (-1074) = 52 - m.log2 := by omega
  have hpow : (2 : ℚ) ^ m.log2 ≤ m := by exact_mod_cast Nat.log2_self_le hm.ne'
  calc (2 : ℚ) ^ 52 = 2 ^ m.log2 * 2 ^ (52 - m.log2 : ℤ) := by
        rw [← zpow_natCast 2 m.log2, ← two_zpow_add, add_sub_cancel]
        norm_num
    _ ≤ m * 2 ^ (52 - m.log2 : ℤ) := mul_le_mul_of_nonneg_right hpow (two_zpow_pos _).le
    _ = _ := by rw [hexponent]

theorem lt_first : (m : ℚ) * 2 ^ (e - target m e) < 2 ^ 53 := by
  unfold target
  have hpow : (m : ℚ) < 2 ^ (m.log2 + 1) := by exact_mod_cast Nat.lt_log2_self
  have hexponent : ((m.log2 + 1 : ℕ) : ℤ) + (52 - m.log2) = 53 := by omega
  calc (m : ℚ) * 2 ^ _ < 2 ^ (m.log2 + 1) * 2 ^ _ := mul_lt_mul_of_pos_right hpow (two_zpow_pos _)
    _ ≤ 2 ^ (m.log2 + 1) * 2 ^ (52 - m.log2 : ℤ) :=
      mul_le_mul_of_nonneg_left (two_zpow_le (by omega)) (by positivity)
    _ = 2 ^ 53 := by
      rw [← zpow_natCast 2 (m.log2 + 1), ← two_zpow_add, hexponent]
      norm_num

end First

/-! ## The second shift -/

theorem shiftToTargetExponent_of_lt {m : ℕ} {t : ℤ} (ht : -1074 ≤ t) (hm : m < 2 ^ 53) :
    shiftToTargetExponent .binary64 m t .exact = (.ofMantissaAndAccuracy m .exact, t) := by
  have hlog := log2_lt_of_lt (by decide) hm
  have hnone : (target m t - t).toNat = 0 := by
    unfold target
    omega
  rw [shiftToTargetExponent_eq, hnone, Nat.cast_zero, add_zero]
  rfl

theorem shiftToTargetExponent_power {t : ℤ} (ht : -1074 ≤ t) :
    shiftToTargetExponent .binary64 (2 ^ 53) t .exact = (⟨2 ^ 52, false, false⟩, t + 1) := by
  have hone : (target (2 ^ 53) t - t).toNat = 1 := by
    rw [target, Nat.log2_two_pow]
    omega
  rw [shiftToTargetExponent_eq, hone]
  rfl

theorem normalized_second {t : ℤ} {m : ℕ} (ht : -1074 ≤ t) (hm : m ≤ 2 ^ 53) (hfull : 2 ^ 52 ≤ m ∨ t = -1074) :
    let second := shiftToTargetExponent .binary64 m t .exact
    Normalized second.1.mantissa second.2 ∧ (second.1.mantissa : ℚ) * 2 ^ second.2 = m * 2 ^ t := by
  intro second
  rcases hm.lt_or_eq with hlt | rfl
  · have hsecond : second = _ := shiftToTargetExponent_of_lt ht hlt
    rw [hsecond]
    exact ⟨⟨hlt, ht, hfull⟩, rfl⟩
  · have hsecond : second = _ := shiftToTargetExponent_power ht
    rw [hsecond, two_zpow_add_one]
    refine ⟨⟨by norm_num, by linarith, .inl le_rfl⟩, ?_⟩
    push_cast
    ring

/-! ## Rounding -/

/-- A canonical number that is nearest to `q`; the exponent may still be too great for a double. -/
structure Rounds (q : ℚ) (u : UnpackedFloat) : Prop where
  canonical : Canonical u
  isFinite : u.isFinite = true
  nearest : IsNearest q (value u)

theorem IsNearest.apply (s : Sign) {m n : ℕ} {x y : ℚ} (h : IsNearest (m * x) (n * y)) :
    IsNearest (s.apply m * x) (s.apply n * y) := by
  cases s with
  | positive => exact h
  | negative =>
    simp only [Sign.apply]
    push_cast
    rw [neg_mul, neg_mul]
    exact h.neg

theorem rounds_roundWithAccuracy (s : Sign) {m : ℕ} {e : ℤ} (hm : 0 < m) (he : e ≤ target m e) :
    Rounds (s.apply m * 2 ^ e) (roundWithAccuracy .binary64 s m e .exact) := by
  let first := shiftToTargetExponent .binary64 m e .exact
  let second := shiftToTargetExponent .binary64 first.1.roundedMantissa first.2 .exact
  have hx : Extends first.1 _ := extends_first he
  have hfull := full_first (e := e) hm
  have hbits := lt_first (m := m) (e := e)
  have ht : first.2 = target m e := by
    rw [exponent_shiftToTargetExponent]
    exact max_eq_right he
  rw [← ht] at hx hfull hbits
  have hmin : -1074 ≤ first.2 := ht ▸ le_max_right _ _
  have hrounded : first.1.roundedMantissa ≤ 2 ^ 53 := hx.roundedMantissa_le_of_lt (by exact_mod_cast hbits)
  have hfull' : 2 ^ 52 ≤ first.1.roundedMantissa ∨ first.2 = -1074 :=
    hfull.imp_left fun h => hx.le_roundedMantissa (by exact_mod_cast h)
  obtain ⟨hnormalized, hvalue⟩ : Normalized second.1.mantissa second.2 ∧ _ :=
    normalized_second hmin hrounded hfull'
  have hnearest : IsNearest (s.apply m * 2 ^ e) (s.apply second.1.mantissa * 2 ^ second.2) := by
    have h := isNearest_of_abs_sub_le hmin hrounded hx.abs_sub_le hfull
    rw [← hvalue, mul_assoc, ← two_zpow_add, sub_add_cancel] at h
    exact h.apply s
  show Rounds _ (if h : second.1.mantissa = 0 then .zero s else .finite s second.1.mantissa second.2 _)
  by_cases hzero : second.1.mantissa = 0
  · have hnothing : s.apply (0 : ℕ) = 0 := by cases s <;> rfl
    rw [dif_pos hzero]
    rw [hzero, hnothing, Int.cast_zero, zero_mul] at hnearest
    exact ⟨trivial, rfl, hnearest⟩
  · rw [dif_neg hzero]
    exact ⟨hnormalized, rfl, hnearest⟩

theorem log2_shiftLeft {m : ℕ} (hm : 0 < m) (k : ℕ) : (m <<< k).log2 = m.log2 + k := by
  have hlo := Nat.log2_self_le hm.ne'
  have hhi : m < 2 ^ (m.log2 + 1) := Nat.lt_log2_self
  rw [Nat.shiftLeft_eq, Nat.log2_eq_iff (by positivity)]
  constructor
  · rw [pow_add]
    exact Nat.mul_le_mul_right _ hlo
  · rw [add_right_comm, pow_add]
    exact Nat.mul_lt_mul_of_pos_right hhi (by positivity)

/-- The exponent is lowered without rounding. -/
theorem apply_shiftLeft (s : Sign) (m k : ℕ) (e : ℤ) :
    (s.apply (m <<< k : ℕ) : ℚ) * 2 ^ (e - k) = s.apply m * 2 ^ e := by
  have hpow : (2 : ℚ) ^ e = 2 ^ k * 2 ^ (e - k) := by
    rw [← zpow_natCast, ← two_zpow_add, add_sub_cancel]
  rw [hpow, Nat.shiftLeft_eq]
  cases s <;> simp only [Sign.apply] <;> push_cast <;> ring

theorem rounds_round (s : Sign) {m : ℕ} (hm : 0 < m) (e : ℤ) :
    Rounds (s.apply m * 2 ^ e) (UnpackedFloat.round .binary64 s m e) := by
  let k := (e - target m e).toNat
  have hround : UnpackedFloat.round .binary64 s m e = roundWithAccuracy .binary64 s (m <<< k) (e - k) .exact := by
    simp only [k, target, ← targetExponent_eq]
    rfl
  have htarget : e - k ≤ target (m <<< k) (e - k) := by
    have hk : (k : ℤ) = max (e - target m e) 0 := by omega
    unfold target at *
    rw [log2_shiftLeft hm]
    omega
  rw [hround, ← apply_shiftLeft s m k e]
  exact rounds_roundWithAccuracy s (by rw [Nat.shiftLeft_eq]; positivity) htarget

theorem rounds_normalize (n e : ℤ) (s : Sign) :
    Rounds (n * 2 ^ e) (UnpackedFloat.normalize .binary64 n e s) := by
  unfold UnpackedFloat.normalize
  rcases lt_trichotomy n 0 with h | rfl | h
  · rw [compare_lt_iff_lt.mpr h]
    have hround := rounds_round .negative (m := (-n).toNat) (by omega) e
    rwa [Sign.apply, Int.toNat_of_nonneg (by omega), neg_neg] at hround
  · rw [compare_eq_iff_eq.mpr rfl, Int.cast_zero, zero_mul]
    exact ⟨trivial, rfl, .self .zero⟩
  · rw [compare_gt_iff_gt.mpr h]
    have hround := rounds_round .positive (m := n.toNat) (by omega) e
    rwa [Sign.apply, Int.toNat_of_nonneg (by omega)] at hround

end RuleExpr.Binary64
