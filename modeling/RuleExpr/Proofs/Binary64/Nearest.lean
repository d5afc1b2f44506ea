/-
  RuleExpr.Proofs.Binary64.Nearest — rounding to numbers of 53 bits.

  A number is on the grid of `2 ^ t` if 53 bits count its steps there, and representable if it is
  on some grid of `2 ^ -1074` or coarser; doubles are such numbers, up to their greatest.
  `IsNearest q r` says that no representable number is closer to `q` than the representable `r`.
  Which one of two equally close numbers it is makes no difference here.

  Rounding passes no representable number (`IsNearest.le_of_le`, `IsNearest.le_of_ge`). Its error
  is at most half a step of any grid that reaches as far as the number (`IsNearest.abs_sub_le`),
  and so, from `2 ^ -1022` up, less than a `2 ^ 53`rd of the number (`IsNearest.abs_sub_lt`). Two
  representable numbers are at least a step apart, of a grid that each of them is on
  (`exists_step`).
-/

import Mathlib.Algebra.Order.Archimedean.Basic
import Mathlib.Algebra.Order.Round
import Mathlib.Tactic.Linarith
import Mathlib.Tactic.Positivity

namespace RuleExpr.Binary64

theorem two_zpow_pos (e : ℤ) : (0 : ℚ) < 2 ^ e := zpow_pos (by norm_num) e

theorem two_zpow_add (d e : ℤ) : (2 : ℚ) ^ (d + e) = 2 ^ d * 2 ^ e := zpow_add₀ (by norm_num) d e

theorem two_zpow_add_one (e : ℤ) : (2 : ℚ) ^ (e + 1) = 2 * 2 ^ e := by
  rw [two_zpow_add, zpow_one, mul_comm]

theorem two_zpow_le {d e : ℤ} (h : d ≤ e) : (2 : ℚ) ^ d ≤ 2 ^ e := zpow_le_zpow_right₀ (by norm_num) h

/-- Steps in units of finer ones. -/
theorem mul_two_zpow_add (k t : ℤ) (j : ℕ) : (k : ℚ) * 2 ^ (t + j) = (k * 2 ^ j : ℤ) * 2 ^ t := by
  rw [two_zpow_add, zpow_natCast]
  push_cast
  ring

/-! ## Grids -/

structure OnGrid (t : ℤ) (x : ℚ) : Prop where
  fine : -1074 ≤ t
  steps : ∃ k : ℤ, |k| ≤ 2 ^ 53 ∧ x = k * 2 ^ t

def Representable (x : ℚ) : Prop := ∃ t, OnGrid t x

theorem OnGrid.neg {t : ℤ} {x : ℚ} (h : OnGrid t x) : OnGrid t (-x) := by
  obtain ⟨ht, k, hk, rfl⟩ := h
  exact ⟨ht, -k, by rwa [abs_neg], by push_cast; ring⟩

theorem OnGrid.mul_abs_le {t : ℤ} {x : ℚ} (h : OnGrid t x) : 2 ^ (-53 : ℤ) * |x| ≤ 2 ^ t := by
  obtain ⟨-, k, hk, rfl⟩ := h
  have hk' : |(k : ℚ)| ≤ 2 ^ 53 := by exact_mod_cast hk
  rw [abs_mul, abs_of_pos (two_zpow_pos t), ← mul_assoc]
  refine mul_le_of_le_one_left (two_zpow_pos t).le ?_
  calc 2 ^ (-53 : ℤ) * |(k : ℚ)| ≤ 2 ^ (-53 : ℤ) * 2 ^ 53 := mul_le_mul_of_nonneg_left hk' (two_zpow_pos _).le
    _ = 1 := by norm_num

/-- Half steps are steps of the next finer grid. -/
theorem OnGrid.refine {t k : ℤ} (ht : -1074 ≤ t) (hk : |2 * k| ≤ 2 ^ 53) : OnGrid t (k * 2 ^ (t + 1)) :=
  ⟨ht, 2 * k, hk, by rw [two_zpow_add_one]; push_cast; ring⟩

theorem OnGrid.two_zpow {t : ℤ} {j : ℕ} (ht : -1074 ≤ t) (hj : j ≤ 53) : OnGrid t (2 ^ (j + t)) := by
  refine ⟨ht, 2 ^ j, ?_, ?_⟩
  · rw [abs_of_nonneg (by positivity)]
    exact pow_le_pow_right₀ (by norm_num) hj
  · rw [two_zpow_add, zpow_natCast]
    push_cast
    rfl

namespace Representable

theorem zero : Representable 0 := ⟨0, by norm_num, 0, by norm_num, by norm_num⟩

theorem neg {x : ℚ} (h : Representable x) : Representable (-x) := h.imp fun _ => OnGrid.neg

end Representable

/-! ## Nearest numbers -/

structure IsNearest (q r : ℚ) : Prop where
  representable : Representable r
  le : ∀ {y : ℚ}, Representable y → |r - q| ≤ |y - q|

namespace IsNearest

variable {q r x y : ℚ} {t : ℤ}

theorem self (h : Representable q) : IsNearest q q := ⟨h, fun _ => by rw [sub_self, abs_zero]; exact abs_nonneg _⟩

theorem neg (h : IsNearest q r) : IsNearest (-q) (-r) := by
  refine ⟨h.representable.neg, fun {y} hy => ?_⟩
  calc |-r - -q| = |r - q| := by rw [neg_sub_neg, abs_sub_comm]
    _ ≤ |-y - q| := h.le hy.neg
    _ = |y - -q| := by rw [← abs_neg]; congr 1; ring

theorem le_of_le (h : IsNearest q r) (hy : Representable y) (hqy : q ≤ y) : r ≤ y := by
  have hle := h.le hy
  rw [abs_of_nonneg (sub_nonneg.mpr hqy)] at hle
  linarith [le_abs_self (r - q)]

theorem le_of_ge (h : IsNearest q r) (hy : Representable y) (hyq : y ≤ q) : y ≤ r :=
  neg_le_neg_iff.mp (h.neg.le_of_le hy.neg (neg_le_neg hyq))

theorem eq_self (h : IsNearest q r) (hq : Representable q) : r = q :=
  le_antisymm (h.le_of_le hq le_rfl) (h.le_of_ge hq le_rfl)

theorem le_midpoint (h : IsNearest q r) (hy : Representable y) (hr : r < y) : q ≤ (r + y) / 2 := by
  by_contra hlt
  have hle := h.le hy
  rw [abs_of_nonpos (by linarith : r - q ≤ 0)] at hle
  rcases abs_cases (y - q) with ⟨habs, -⟩ | ⟨habs, -⟩ <;> linarith

theorem midpoint_le (h : IsNearest q r) (hy : Representable y) (hr : y < r) : (r + y) / 2 ≤ q := by
  linarith [h.neg.le_midpoint hy.neg (neg_lt_neg hr)]

/-- The closest point of the grid is not further out than `x`. -/
theorem abs_sub_le (h : IsNearest q r) (hx : OnGrid t x) (hq : |q| ≤ |x|) : |r - q| ≤ 2 ^ t / 2 := by
  obtain ⟨ht, k, hk, rfl⟩ := hx
  have hpos := two_zpow_pos t
  let n := round (q / 2 ^ t)
  have hround : |q / 2 ^ t - n| ≤ 1 / 2 := abs_sub_round _
  have hdist : |n * 2 ^ t - q| ≤ 2 ^ t / 2 := by
    have e : (n : ℚ) * 2 ^ t - q = -((q / 2 ^ t - n) * 2 ^ t) := by
      field_simp
      ring
    rw [e, abs_neg, abs_mul, abs_of_pos hpos]
    linarith [mul_le_mul_of_nonneg_right hround hpos.le]
  have hn : |n| ≤ |k| := by
    have hle : |q / 2 ^ t| ≤ |(k : ℚ)| := by
      rw [abs_div, abs_of_pos hpos, div_le_iff₀ hpos]
      rwa [abs_mul, abs_of_pos hpos] at hq
    have htri := abs_sub_abs_le_abs_sub (n : ℚ) (q / 2 ^ t)
    rw [abs_sub_comm] at htri
    have hlt : |(n : ℚ)| < |(k : ℚ)| + 1 := by linarith
    have hint : |n| < |k| + 1 := by exact_mod_cast hlt
    omega
  exact (h.le ⟨t, ht, n, hn.trans hk, rfl⟩).trans hdist

/-- On the finest grid. -/
theorem abs_sub_le_least (h : IsNearest q r) (hq : |q| ≤ 2 ^ (-1022 : ℤ)) : |r - q| ≤ 2 ^ (-1075 : ℤ) := by
  have hhalf : (2 : ℚ) ^ (-1074 : ℤ) = 2 * 2 ^ (-1075 : ℤ) := by
    rw [← two_zpow_add_one]
    norm_num
  have hgrid : OnGrid (-1074) (2 ^ (-1022 : ℤ)) := OnGrid.two_zpow (j := 52) le_rfl (by norm_num)
  have hle := h.abs_sub_le hgrid (hq.trans_eq (abs_of_pos (two_zpow_pos _)).symm)
  linarith

theorem abs_sub_lt (h : IsNearest q r) (hq : 2 ^ (-1022 : ℤ) ≤ q) : |r - q| < 2 ^ (-53 : ℤ) * q := by
  have hpos : 0 < q := (two_zpow_pos _).trans_le hq
  obtain ⟨k, hk, hk'⟩ := exists_mem_Ico_zpow hpos (one_lt_two : (1 : ℚ) < 2)
  have hlo : -1022 ≤ k := by
    by_contra hlt
    exact absurd (hq.trans_lt hk') (not_lt.mpr (two_zpow_le (by omega)))
  rcases hk.eq_or_lt with rfl | hlt
  · have hpower : OnGrid (k - 52) (2 ^ (((52 : ℕ) : ℤ) + (k - 52))) := .two_zpow (by omega) (by norm_num)
    rw [Nat.cast_ofNat, add_sub_cancel] at hpower
    rw [h.eq_self ⟨_, hpower⟩, sub_self, abs_zero]
    positivity
  · have hpower : OnGrid (k - 52) (2 ^ (((53 : ℕ) : ℤ) + (k - 52))) := .two_zpow (by omega) le_rfl
    have hle := h.abs_sub_le hpower (by
      rw [abs_of_pos hpos, abs_of_pos (two_zpow_pos _)]
      exact hk'.le.trans (two_zpow_le (by omega)))
    have hhalf : (2 : ℚ) ^ (k - 52) = 2 * (2 ^ (-53 : ℤ) * 2 ^ k) := by
      rw [← two_zpow_add, ← two_zpow_add_one]
      congr 1
      ring
    calc |r - q| ≤ 2 ^ (k - 52) / 2 := hle
      _ = 2 ^ (-53 : ℤ) * 2 ^ k := by rw [hhalf, mul_div_cancel_left₀ _ (by norm_num)]
      _ < 2 ^ (-53 : ℤ) * q := mul_lt_mul_of_pos_left hlt (two_zpow_pos _)

end IsNearest

/-! ## Steps -/

theorem two_zpow_le_abs_sub {m n : ℤ} (h : m ≠ n) (t : ℤ) : 2 ^ t ≤ |(n : ℚ) * 2 ^ t - m * 2 ^ t| := by
  have hone : (1 : ℚ) ≤ |(n - m : ℤ)| := by exact_mod_cast Int.one_le_abs (sub_ne_zero.mpr h.symm)
  rw [← sub_mul, abs_mul, abs_of_pos (two_zpow_pos t)]
  push_cast at hone
  exact le_mul_of_one_le_left (two_zpow_pos t).le hone

/-- The grid of `x` is refined until it is that of `y`, or until `x` has all its bits and so is
    out of reach of the finer grid. -/
theorem exists_step_of_finer {f : ℤ} {y : ℚ} (hy : OnGrid f y) (j : ℕ) {x : ℚ} (hx : OnGrid (f + j) x) (h : x ≠ y) :
    ∃ t, OnGrid t x ∧ 2 ^ t ≤ |y - x| := by
  induction j generalizing x with
  | zero =>
    rw [Nat.cast_zero, add_zero] at hx
    obtain ⟨-, k, -, rfl⟩ := id hx
    obtain ⟨-, n, -, rfl⟩ := hy
    exact ⟨f, hx, two_zpow_le_abs_sub (fun e => h (by rw [e])) f⟩
  | succ j ih =>
    obtain ⟨ht, k, hk, rfl⟩ := id hx
    rw [Nat.cast_succ, ← add_assoc] at hx h ht ⊢
    by_cases hroom : |2 * k| ≤ 2 ^ 53
    · exact ih (.refine (by linarith [hy.fine]) hroom) h
    · refine ⟨f + j + 1, hx, ?_⟩
      have hbig : 2 ^ 52 + 1 ≤ |(k : ℚ)| := by
        rw [abs_mul] at hroom
        have hint : 2 ^ 52 + 1 ≤ |k| := by
          norm_num at hroom ⊢
          omega
        exact_mod_cast hint
      have hsmall : |y| ≤ 2 ^ 52 * 2 ^ (f + j + 1) := by
        obtain ⟨-, n, hn, rfl⟩ := hy
        have hn' : |(n : ℚ)| ≤ 2 ^ 53 := by exact_mod_cast hn
        have hfiner : (2 : ℚ) ^ f ≤ 2 ^ (f + j) := two_zpow_le (by omega)
        rw [abs_mul, abs_of_pos (two_zpow_pos f), two_zpow_add_one]
        nlinarith [two_zpow_pos f]
      have htri := abs_sub_abs_le_abs_sub ((k : ℚ) * 2 ^ (f + j + 1)) y
      rw [abs_sub_comm, abs_mul, abs_of_pos (two_zpow_pos _)] at htri
      nlinarith [two_zpow_pos (f + j + 1)]

theorem exists_step {x y : ℚ} (hx : Representable x) (hy : Representable y) (h : x ≠ y) :
    ∃ t, OnGrid t x ∧ 2 ^ t ≤ |y - x| := by
  obtain ⟨e, hx⟩ := hx
  obtain ⟨f, hy⟩ := hy
  rcases le_total f e with hfe | hef
  · obtain ⟨j, rfl⟩ := Int.le.dest hfe
    exact exists_step_of_finer hy j hx h
  · obtain ⟨-, k, -, rfl⟩ := id hx
    obtain ⟨-, n, -, rfl⟩ := hy
    obtain ⟨j, rfl⟩ := Int.le.dest hef
    rw [mul_two_zpow_add] at h ⊢
    exact ⟨e, hx, two_zpow_le_abs_sub (fun e => h (by rw [e])) e⟩

end RuleExpr.Binary64
