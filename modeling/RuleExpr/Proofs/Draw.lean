/-
  RuleExpr.Proofs.Draw — random draws and their bounds.

  The unit draw is a whole number of steps of `2 ^ -53` below 1 (`Draw.exists_hasSteps_unit`), and its
  complement is such a number too. For ints the draw is scaled to the span; what comes of that is
  no less than 0, and the upper bound caps it, so a draw between two ints always succeeds and stays
  between them (`randomUniform_int_between`).

  For doubles it is the weight in a rounded mean of the bounds (`isMean_of_drawBetween`). That stays
  between them if they have zero between them or are further apart than `2 ^ -1022` (`Wide`). Else
  it can be the next double outside, but not further out (`randomUniform_double_near`); equal bounds
  are already such a case (`randomUniform_double_not_between`).
-/

import RuleExpr.Operation
import RuleExpr.Proofs.Binary64.Arithmetic
import RuleExpr.Proofs.Binary64.Mean
import RuleExpr.Proofs.Finite.Operation
import RuleExpr.Proofs.Reduction.Exact
import RuleExpr.Proofs.Reordering

namespace RuleExpr

open Binary64

/-! ## The unit draw -/

namespace Draw

/-- The size of a step. -/
def step : Float := 1.0 / 9007199254740992.0

theorem unpack_step : step.toModel.unpack = .finite .positive (2 ^ 52) (-105) (by decide) := rfl

theorem toRat_step : toRat step = 2 ^ (-53 : ℤ) := by
  rw [toRat, unpack_step, value_positive]
  norm_num

/-- A number of steps, exactly. -/
structure HasSteps (k : ℕ) (x : Float) : Prop where
  isFinite : x.isFinite = true
  toRat_eq : toRat x = k * 2 ^ (-53 : ℤ)

namespace HasSteps

variable {k : ℕ} {x : Float}

theorem nonneg (h : HasSteps k x) : 0 ≤ toRat x := by
  rw [h.toRat_eq]
  exact mul_nonneg (Nat.cast_nonneg k) (two_zpow_pos _).le

theorem le_one (h : HasSteps k x) (hk : k ≤ 2 ^ 53) : toRat x ≤ 1 := by
  have hk' : (k : ℚ) ≤ 2 ^ 53 := by exact_mod_cast hk
  calc toRat x = k * 2 ^ (-53 : ℤ) := h.toRat_eq
    _ ≤ 2 ^ 53 * 2 ^ (-53 : ℤ) := mul_le_mul_of_nonneg_right hk' (two_zpow_pos _).le
    _ = 1 := by norm_num

theorem weight (h : HasSteps k x) : Weight (toRat x) := by
  rw [h.toRat_eq]
  rcases Nat.eq_zero_or_pos k with rfl | hk
  · exact .inl (by rw [Nat.cast_zero, zero_mul])
  · exact .inr (le_mul_of_one_le_left (two_zpow_pos _).le (by exact_mod_cast hk))

theorem ofRounded (hk : k ≤ 2 ^ 53) (h : Rounded (k * 2 ^ (-53 : ℤ)) x) : HasSteps k x := by
  have hgrid : Representable (k * 2 ^ (-53 : ℤ)) :=
    ⟨-53, by norm_num, k, by rw [Nat.abs_cast]; exact_mod_cast hk, by rw [Int.cast_natCast]⟩
  have hlimit : |(k * 2 ^ (-53 : ℤ) : ℚ)| ≤ limit := by
    have hk' : |(k : ℚ)| ≤ 2 ^ (53 : ℤ) := by
      rw [Nat.abs_cast]
      exact_mod_cast hk
    rw [abs_mul, abs_of_pos (two_zpow_pos _)]
    calc |(k : ℚ)| * 2 ^ (-53 : ℤ) ≤ 2 ^ (53 : ℤ) * 2 ^ (-53 : ℤ) :=
          mul_le_mul_of_nonneg_right hk' (two_zpow_pos _).le
      _ = 2 ^ (0 : ℤ) := by rw [← two_zpow_add, add_neg_cancel]
      _ ≤ limit := two_zpow_le (by norm_num)
  exact ⟨h.isFinite hlimit, h.toRat_eq hgrid hlimit⟩

theorem one_sub (h : HasSteps k x) (hk : k ≤ 2 ^ 53) : HasSteps (2 ^ 53 - k) (1.0 - x) := by
  have hdifference : Rounded (toRat one - toRat x) (1.0 - x) := rounded_sub rfl h.isFinite
  have hsteps : toRat one - toRat x = (2 ^ 53 - k : ℕ) * 2 ^ (-53 : ℤ) := by
    rw [toRat_one, h.toRat_eq, Nat.cast_sub hk, sub_mul]
    norm_num
  rw [hsteps] at hdifference
  exact ofRounded (Nat.sub_le _ _) hdifference

end HasSteps

theorem exists_hasSteps_unit (seed : UInt64) (lo hi : Float) : ∃ k < 2 ^ 53, HasSteps k (unit seed lo hi) := by
  let word := mix (absorb offsetBasis [seed, lo.toBits, hi.toBits]) >>> 11
  have hword : word.toNat < 2 ^ 53 := by
    have hstate := (mix (absorb offsetBasis [seed, lo.toBits, hi.toBits])).toNat_lt
    have heleven : (11 : UInt64).toNat % 64 = 11 := rfl
    rw [UInt64.toNat_shiftRight, heleven, Nat.shiftRight_eq_div_pow]
    omega
  have hfinite : word.toFloat.isFinite = true := (rounded_toFloat _).isFinite (natCast_le_limit hword.le)
  have hproduct : Rounded (toRat word.toFloat * toRat step) (unit seed lo hi) := rounded_mul hfinite rfl
  rw [toRat_toFloat hword.le, toRat_step] at hproduct
  exact ⟨word.toNat, hword, .ofRounded hword.le hproduct⟩

end Draw

namespace Ty

/-! ## Ints -/

/-- The scaled draw is not negative, which is all that is needed of it below the cap. -/
theorem exists_uniform? {lo hi : Int32} (hle : lo.toInt ≤ hi.toInt) {draw : Float} (hfinite : draw.isFinite = true)
    (hpos : 0 ≤ toRat draw) (hone : toRat draw ≤ 1) :
    ∃ v : Int32, IntArithmetic.uniform? lo hi draw = some v ∧ lo.toInt ≤ v.toInt ∧ v.toInt ≤ hi.toInt := by
  have hlo := lo.le_toInt
  have hhi := hi.toInt_lt
  obtain ⟨n, hn⟩ := Int.eq_ofNat_of_zero_le (show 0 ≤ hi.toInt - lo.toInt + 1 by omega)
  have hspan : n < 2 ^ 53 := by omega
  have hscaled := rounded_mul hfinite (isFinite_ofNat hspan)
  rw [toRat_ofNat hspan] at hscaled
  generalize hx : draw * Float.ofNat n = x at hscaled
  have hproduct : 0 ≤ toRat draw * n := mul_nonneg hpos (Nat.cast_nonneg n)
  have hxfinite : x.isFinite = true := by
    refine hscaled.isFinite (le_trans ?_ (natCast_le_limit hspan.le))
    rw [abs_of_nonneg hproduct, Nat.abs_cast]
    exact mul_le_of_le_one_left (Nat.cast_nonneg n) hone
  have hxpos : 0 ≤ toRat x := (hscaled.nearest hxfinite).le_of_ge .zero hproduct
  have hfloor : 0 ≤ ⌊toRat x⌋ := Int.floor_nonneg.mpr hxpos
  obtain ⟨v, hv⟩ := exists_int32? (n := min (lo.toInt + ⌊toRat x⌋) hi.toInt) ⟨by omega, by omega⟩
  have hvalue := int32?_eq_some_iff.mp hv
  have huniform : IntArithmetic.uniform? lo hi draw = some v := by
    have hofInt : draw * Float.ofInt (n : Int) = x := hx
    unfold IntArithmetic.uniform?
    simp only [hn, hofInt, truncate?_eq_floor hxfinite hxpos, hv]
  exact ⟨v, huniform, by omega, by omega⟩

theorem uniform?_int : Numeric.uniform? (t := .int) = IntArithmetic.uniform? := rfl

theorem exists_drawBetween (seed : UInt64) {lo hi : Int32} (hle : lo.toInt ≤ hi.toInt) :
    ∃ v : Int32, drawBetween (t := .int) seed lo hi = some v ∧ lo.toInt ≤ v.toInt ∧ v.toInt ≤ hi.toInt := by
  rw [drawBetween, uniform?_int]
  obtain ⟨k, hk, hdraw⟩ :=
    Draw.exists_hasSteps_unit seed (Numeric.toFloat (t := .int) lo) (Numeric.toFloat (t := .int) hi)
  exact exists_uniform? hle hdraw.isFinite hdraw.nonneg (hdraw.le_one hk.le)

/-- In every context, whichever operand is the greater. -/
theorem randomUniform_int_between (c : Context) (v w : Int32) :
    ∃ drawn : Int32, applyBinary c.seed .int .randomUniform v w = .ok drawn ∧
      applyBinary c.seed .int .randomUniform w v = .ok drawn ∧
        min v.toInt w.toInt ≤ drawn.toInt ∧ drawn.toInt ≤ max v.toInt w.toInt := by
  have hmin := ExactInteger.toInt_minimum v w
  have hmax := ExactInteger.toInt_maximum v w
  have hordered : (minimum .int v w).toInt ≤ (maximum .int v w).toInt := by omega
  obtain ⟨drawn, hdrawn, hlo, hhi⟩ := exists_drawBetween c.seed hordered
  have happly : applyBinary c.seed .int .randomUniform v w = .ok drawn := by
    rw [applyBinary_randomUniform, hdrawn]
    rfl
  refine ⟨drawn, happly, ?_, hmin ▸ hlo, hmax ▸ hhi⟩
  rwa [applyBinary_comm c.seed rfl]

/-! ## Doubles -/

theorem uniform?_double (lo hi draw : Float) : Numeric.uniform? (t := .double) lo hi draw =
    DoubleArithmetic.finite? (lo * (1.0 - draw) + hi * draw) := rfl

theorem isMean_of_drawBetween {seed : UInt64} {lo hi v : Float} (hlo : lo.isFinite = true) (hhi : hi.isFinite = true)
    (h : drawBetween (t := .double) seed lo hi = some v) :
    v.isFinite = true ∧ ∃ weightLo weightHi, IsMean (toRat lo) (toRat hi) weightLo weightHi (toRat v) := by
  obtain ⟨k, hk, hdraw⟩ := Draw.exists_hasSteps_unit seed lo hi
  have hmean : DoubleArithmetic.finite? (lo * (1.0 - Draw.unit seed lo hi) + hi * Draw.unit seed lo hi) = some v := by
    rw [← uniform?_double]
    exact h
  generalize Draw.unit seed lo hi = draw at hdraw hmean
  have hfinite : v.isFinite = true := finite_of_finite? hmean
  obtain rfl : lo * (1.0 - draw) + hi * draw = v := by
    unfold DoubleArithmetic.finite? at hmean
    split at hmean
    · exact Option.some.inj hmean
    · cases hmean
  have hrest := hdraw.one_sub hk.le
  have hweights : toRat (1.0 - draw) + toRat draw = 1 := by
    rw [hrest.toRat_eq, hdraw.toRat_eq, ← add_mul, Nat.cast_sub hk.le, sub_add_cancel]
    norm_num
  obtain ⟨hfar, hnear⟩ := isFinite_of_add hfinite
  exact ⟨hfinite, _, _, representable_toRat lo, representable_toRat hi, hrest.weight, hdraw.weight, hweights, _, _,
    (rounded_mul hlo hrest.isFinite).nearest hfar, (rounded_mul hhi hdraw.isFinite).nearest hnear,
    (rounded_add hfar hnear).nearest hfinite⟩

/-- Zero is between the bounds, or they are well apart. -/
def Wide (lo hi : Float) : Prop := lo ≤ 0.0 ∧ 0.0 ≤ hi ∨ toRat lo + 2 ^ (-1022 : ℤ) < toRat hi

theorem drawBetween_of_applyBinary {seed : UInt64} {lo hi v : Float} (hlo : lo.isFinite = true)
    (hhi : hi.isFinite = true) (hle : lo ≤ hi) (h : applyBinary seed .double .randomUniform lo hi = .ok v) :
    drawBetween (t := .double) seed lo hi = some v := by
  have hless : ¬ less .double hi lo = true := by
    intro hlt
    have hlt' : hi < lo := of_decide_eq_true hlt
    exact absurd ((lt_iff hhi hlo).mp hlt') (not_lt.mpr ((le_iff hlo hhi).mp hle))
  have hchecked : checked (t := .double) (.binary .randomUniform) (if less .double hi lo then
      drawBetween (t := .double) seed hi lo else drawBetween (t := .double) seed lo hi) = .ok v := h
  rw [if_neg hless] at hchecked
  cases hdraw : drawBetween (t := .double) seed lo hi with
  | none =>
    rw [hdraw] at hchecked
    cases hchecked
  | some w =>
    rw [hdraw] at hchecked
    exact congrArg some (Except.ok.inj hchecked)

/-- No double lies between a draw and the bound that it passes, and wide bounds are not passed. -/
theorem randomUniform_double_near {seed : UInt64} {lo hi v : Float} (hlo : lo.isFinite = true)
    (hhi : hi.isFinite = true) (hle : lo ≤ hi) (h : applyBinary seed .double .randomUniform lo hi = .ok v) :
    (∀ y : Float, y.isFinite = true → (hi < y → v ≤ y) ∧ (y < lo → y ≤ v)) ∧ (Wide lo hi → lo ≤ v ∧ v ≤ hi) := by
  obtain ⟨hv, weightLo, weightHi, hmean⟩ := isMean_of_drawBetween hlo hhi (drawBetween_of_applyBinary hlo hhi hle h)
  have hle' := (le_iff hlo hhi).mp hle
  refine ⟨fun y hy => ⟨fun hlt => ?_, fun hlt => ?_⟩, fun hwide => ?_⟩
  · exact (le_iff hv hy).mpr (hmean.le_of_lt hle' (representable_toRat y) ((lt_iff hhi hy).mp hlt))
  · exact (le_iff hy hv).mpr (hmean.le_of_gt hle' (representable_toRat y) ((lt_iff hy hlo).mp hlt))
  · rw [le_iff hlo hv, le_iff hv hhi]
    rcases hwide with ⟨hneg, hpos⟩ | hapart
    · have hzero : (0.0 : Float).isFinite = true := rfl
      exact hmean.between_of_zero ((le_iff hlo hzero).mp hneg) ((le_iff hzero hhi).mp hpos)
    · exact hmean.between hapart

theorem randomUniform_double_near_two_six :
    (2.0 : Float).isFinite = true ∧ (6.0 : Float).isFinite = true ∧ (2.0 : Float) ≤ 6.0 ∧ Wide 2.0 6.0 ∧
      applyBinary 1234 .double .randomUniform (2.0 : Float) (6.0 : Float) = .ok (Float.ofBits 0x4016bcc4be1ce112) ∧
        2.0 ≤ Float.ofBits 0x4016bcc4be1ce112 ∧ Float.ofBits 0x4016bcc4be1ce112 ≤ 6.0 := by
  have hle : (2.0 : Float) ≤ 6.0 := by decide +kernel
  have hwide : Wide 2.0 6.0 := by
    have hlo : (2.0 : Float).toModel.unpack = .finite .positive (2 ^ 52) (-51) (by decide) := rfl
    have hhi : (6.0 : Float).toModel.unpack = .finite .positive (3 * 2 ^ 51) (-50) (by decide) := rfl
    have hleast : (2 : ℚ) ^ (-1022 : ℤ) ≤ 2 ^ (0 : ℤ) := two_zpow_le (by norm_num)
    refine .inr ?_
    rw [toRat, toRat, hlo, hhi, value_positive, value_positive]
    calc _ ≤ ((2 ^ 52 : ℕ) : ℚ) * 2 ^ (-51 : ℤ) + 2 ^ (0 : ℤ) := add_le_add_right hleast _
      _ < _ := by norm_num
  have hdraw : applyBinary 1234 .double .randomUniform (2.0 : Float) (6.0 : Float) =
      .ok (Float.ofBits 0x4016bcc4be1ce112) := by
    change @Eq (Except Error Float) _ _
    decide +kernel
  exact ⟨rfl, rfl, hle, hwide, hdraw, (randomUniform_double_near rfl rfl hle hdraw).2 hwide⟩

/-- Between 1.8 and 1.8 the next double above is drawn. -/
theorem randomUniform_double_not_between :
    ¬ ∀ (seed : UInt64) (lo hi v : Float), lo.isFinite = true → hi.isFinite = true → lo ≤ hi →
      applyBinary seed .double .randomUniform lo hi = .ok v → lo ≤ v ∧ v ≤ hi := by
  intro h
  have hdraw : applyBinary 0 .double .randomUniform (1.8 : Float) (1.8 : Float) =
      .ok (Float.ofBits 0x3ffcccccccccccce) := by
    change @Eq (Except Error Float) _ _
    decide +kernel
  have hle := (h 0 1.8 1.8 _ rfl rfl (by decide +kernel) hdraw).2
  exact absurd hle (by decide +kernel)

end Ty

end RuleExpr
