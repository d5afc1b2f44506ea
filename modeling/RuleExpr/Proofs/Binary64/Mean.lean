/-
  RuleExpr.Proofs.Binary64.Mean — a weighted mean that is rounded after every step.

  Both products are rounded, and so is their sum. Where zero lies between the two numbers the mean
  does as well, between the numbers (`IsMean.between_of_zero`). In general it can leave them, by
  no more than to the next representable number (`IsMean.le_of_lt`, `IsMean.le_of_gt`): each
  product is off by at most half a step of the grid of the bound that is passed. Two numbers that
  are more than `2 ^ -1022` apart are not left at all (`IsMean.between`). For the product with the
  far bound is off by less than the weight of that bound moves the mean inward, so that less than
  half a step is left for the sum to be rounded outward.
-/

import RuleExpr.Proofs.Binary64.Nearest

namespace RuleExpr.Binary64

/-- Not so small that the product with a bound is lost. -/
def Weight (c : ℚ) : Prop := c = 0 ∨ 2 ^ (-53 : ℤ) ≤ c

theorem Weight.nonneg {c : ℚ} (h : Weight c) : 0 ≤ c := by
  rcases h with rfl | h
  · exact le_rfl
  · exact (two_zpow_pos _).le.trans h

structure IsMean (lo hi w u v : ℚ) : Prop where
  representable_lo : Representable lo
  representable_hi : Representable hi
  weight_lo : Weight w
  weight_hi : Weight u
  weights : w + u = 1
  exists_nearest : ∃ p q, IsNearest (lo * w) p ∧ IsNearest (hi * u) q ∧ IsNearest (p + q) v

namespace IsMean

variable {lo hi w u v y : ℚ}

theorem neg (h : IsMean lo hi w u v) : IsMean (-hi) (-lo) u w (-v) := by
  obtain ⟨p, q, hp, hq, hv⟩ := h.exists_nearest
  refine ⟨h.representable_hi.neg, h.representable_lo.neg, h.weight_hi, h.weight_lo,
    by linarith [h.weights], -q, -p, ?_, ?_, ?_⟩
  · rw [neg_mul]
    exact hq.neg
  · rw [neg_mul]
    exact hp.neg
  · rw [← neg_add_rev]
    exact hv.neg

theorem between_of_zero (h : IsMean lo hi w u v) (hlo : lo ≤ 0) (hhi : 0 ≤ hi) : lo ≤ v ∧ v ≤ hi := by
  obtain ⟨p, q, hp, hq, hv⟩ := h.exists_nearest
  have hw := h.weight_lo.nonneg
  have hu := h.weight_hi.nonneg
  have hsum := h.weights
  have hp0 : p ≤ 0 := hp.le_of_le .zero (mul_nonpos_of_nonpos_of_nonneg hlo hw)
  have hp1 : lo ≤ p := hp.le_of_ge h.representable_lo (by nlinarith)
  have hq0 : 0 ≤ q := hq.le_of_ge .zero (mul_nonneg hhi hu)
  have hq1 : q ≤ hi := hq.le_of_le h.representable_hi (by nlinarith)
  exact ⟨hv.le_of_ge h.representable_lo (by linarith), hv.le_of_le h.representable_hi (by linarith)⟩

/-! ## Out by at most one number -/

theorem le_of_lt_of_pos (h : IsMean lo hi w u v) (hpos : 0 < lo) (hle : lo ≤ hi) (hy : Representable y)
    (hlt : hi < y) : v ≤ y := by
  obtain ⟨p, q, hp, hq, hv⟩ := h.exists_nearest
  have hw := h.weight_lo.nonneg
  have hu := h.weight_hi.nonneg
  have hsum := h.weights
  obtain ⟨t, hgrid, hstep⟩ := exists_step h.representable_hi hy hlt.ne
  rw [abs_of_pos (by linarith)] at hstep
  have hep := abs_le.mp (hp.abs_sub_le hgrid (abs_le_abs_of_nonneg (by positivity) (by nlinarith)))
  have heq := abs_le.mp (hq.abs_sub_le hgrid (abs_le_abs_of_nonneg (by nlinarith) (by nlinarith)))
  exact hv.le_of_le hy (by nlinarith)

theorem le_of_gt_of_pos (h : IsMean lo hi w u v) (hpos : 0 < lo) (hle : lo ≤ hi) (hy : Representable y)
    (hlt : y < lo) : y ≤ v := by
  obtain ⟨p, q, hp, hq, hv⟩ := h.exists_nearest
  have hw := h.weight_lo.nonneg
  have hu := h.weight_hi.nonneg
  have hsum := h.weights
  refine hv.le_of_ge hy ?_
  rcases le_total (hi * u) lo with hnear | hfar
  · obtain ⟨t, hgrid, hstep⟩ := exists_step h.representable_lo hy hlt.ne'
    rw [abs_of_neg (by linarith)] at hstep
    have hep := abs_le.mp (hp.abs_sub_le hgrid (abs_le_abs_of_nonneg (by positivity) (by nlinarith)))
    have heq := abs_le.mp (hq.abs_sub_le hgrid (abs_le_abs_of_nonneg (by nlinarith) hnear))
    nlinarith
  · have hq1 : lo ≤ q := hq.le_of_ge h.representable_lo hfar
    have hp0 : 0 ≤ p := hp.le_of_ge .zero (by positivity)
    linarith

theorem le_of_lt (h : IsMean lo hi w u v) (hle : lo ≤ hi) (hy : Representable y) (hlt : hi < y) : v ≤ y := by
  rcases lt_or_ge 0 lo with hlo | hlo
  · exact h.le_of_lt_of_pos hlo hle hy hlt
  rcases lt_or_ge hi 0 with hhi | hhi
  · have hneg := h.neg.le_of_gt_of_pos (by linarith) (by linarith) hy.neg (by linarith)
    linarith
  · exact (h.between_of_zero hlo hhi).2.trans hlt.le

theorem le_of_gt (h : IsMean lo hi w u v) (hle : lo ≤ hi) (hy : Representable y) (hlt : y < lo) : y ≤ v := by
  have hneg := h.neg.le_of_lt (by linarith) hy.neg (by linarith)
  linarith

/-! ## Not out at all -/

theorem mul_le_distance (h : IsMean lo hi w u v) (hpos : 0 < lo) (hlt : lo < hi) : 2 ^ (-53 : ℤ) * hi ≤ hi - lo := by
  obtain ⟨t, hgrid, hstep⟩ := exists_step h.representable_hi h.representable_lo hlt.ne'
  rw [abs_of_neg (by linarith)] at hstep
  have hle := hgrid.mul_abs_le
  rw [abs_of_pos (hpos.trans hlt)] at hle
  linarith

/-- A product is off by less than the weight's share of the distance of the bounds. -/
theorem abs_sub_lt_share (h : IsMean lo hi w u v) (hpos : 0 < lo) (hlt : lo + 2 ^ (-1022 : ℤ) < hi) {x c r : ℚ}
    (hx : 0 < x) (hxhi : x ≤ hi) (hc : 2 ^ (-53 : ℤ) ≤ c) (hr : IsNearest (x * c) r) :
    |r - x * c| < (hi - lo) * c := by
  have hleast := two_zpow_pos (-1022)
  have hcpos : 0 < c := (two_zpow_pos _).trans_le hc
  have hxc : 0 < x * c := mul_pos hx hcpos
  rcases le_total (2 ^ (-1022 : ℤ)) (x * c) with hnormal | hsmall
  · have hshare := h.mul_le_distance hpos (by linarith)
    calc |r - x * c| < 2 ^ (-53 : ℤ) * (x * c) := hr.abs_sub_lt hnormal
      _ ≤ 2 ^ (-53 : ℤ) * hi * c := by
        rw [← mul_assoc]
        gcongr
      _ ≤ (hi - lo) * c := by gcongr
  · have hsplit : (2 : ℚ) ^ (-1075 : ℤ) = 2 ^ (-1022 : ℤ) * 2 ^ (-53 : ℤ) := by
      rw [← two_zpow_add]
      norm_num
    calc |r - x * c| ≤ 2 ^ (-1022 : ℤ) * 2 ^ (-53 : ℤ) :=
        hsplit ▸ hr.abs_sub_le_least ((abs_of_pos hxc).trans_le hsmall)
      _ ≤ 2 ^ (-1022 : ℤ) * c := by gcongr
      _ < (hi - lo) * c := by
        gcongr
        linarith

/-- All weight is on one bound. -/
theorem eq_of_weight_eq_zero (h : IsMean lo hi w u v) (hu : u = 0) : v = lo := by
  obtain ⟨p, q, hp, hq, hv⟩ := h.exists_nearest
  have hw : w = 1 := by linarith [h.weights]
  rw [hw, mul_one] at hp
  rw [hu, mul_zero] at hq
  rw [hp.eq_self h.representable_lo, hq.eq_self .zero, add_zero] at hv
  exact hv.eq_self h.representable_lo

theorem le_of_pos (h : IsMean lo hi w u v) (hpos : 0 < lo) (hlt : lo + 2 ^ (-1022 : ℤ) < hi) : lo ≤ v := by
  obtain ⟨p, q, hp, hq, hv⟩ := h.exists_nearest
  have hleast := two_zpow_pos (-1022)
  have hw := h.weight_lo.nonneg
  have hsum := h.weights
  rcases h.weight_hi with hu | hu
  · exact (h.eq_of_weight_eq_zero hu).ge
  by_contra hout
  obtain ⟨t, hgrid, hstep⟩ := exists_step h.representable_lo hv.representable (by linarith)
  rw [abs_of_neg (by linarith)] at hstep
  have hmid := hv.le_midpoint h.representable_lo (not_le.mp hout)
  have hep := abs_le.mp (hp.abs_sub_le hgrid (abs_le_abs_of_nonneg (by positivity) (by nlinarith [h.weight_hi.nonneg])))
  have heq := abs_lt.mp (h.abs_sub_lt_share hpos hlt (by linarith) le_rfl hu hq)
  nlinarith

theorem ge_of_pos (h : IsMean lo hi w u v) (hpos : 0 < lo) (hlt : lo + 2 ^ (-1022 : ℤ) < hi) : v ≤ hi := by
  obtain ⟨p, q, hp, hq, hv⟩ := h.exists_nearest
  have hleast := two_zpow_pos (-1022)
  have hu := h.weight_hi.nonneg
  have hsum := h.weights
  rcases h.weight_lo with hw | hw
  · linarith [h.neg.eq_of_weight_eq_zero hw]
  by_contra hout
  obtain ⟨t, hgrid, hstep⟩ := exists_step h.representable_hi hv.representable (by linarith)
  rw [abs_of_pos (by linarith)] at hstep
  have hmid := hv.midpoint_le h.representable_hi (not_le.mp hout)
  have hep := abs_lt.mp (h.abs_sub_lt_share hpos hlt hpos (by linarith) hw hp)
  have heq := abs_le.mp (hq.abs_sub_le hgrid (abs_le_abs_of_nonneg (by nlinarith) (by nlinarith [h.weight_lo.nonneg])))
  nlinarith

theorem between (h : IsMean lo hi w u v) (hlt : lo + 2 ^ (-1022 : ℤ) < hi) : lo ≤ v ∧ v ≤ hi := by
  rcases lt_or_ge 0 lo with hlo | hlo
  · exact ⟨h.le_of_pos hlo hlt, h.ge_of_pos hlo hlt⟩
  rcases lt_or_ge hi 0 with hhi | hhi
  · have hle := h.neg.le_of_pos (by linarith) (by linarith)
    have hge := h.neg.ge_of_pos (by linarith) (by linarith)
    exact ⟨by linarith, by linarith⟩
  · exact h.between_of_zero hlo hhi

end IsMean

end RuleExpr.Binary64
