/-
  RuleExpr.Proofs.Reduction.Extreme — the greatest and the least of a list.

  Extremes are picked from a list by the step that also makes the minimum and the maximum of two
  operands: the first of two values stays, unless the second beats it (`pick`). Where of any two
  values one beats the other (`Strict`), it makes no difference how the picks are grouped
  (`pick_assoc`), and the extreme of a list is the one value in it that no other beats
  (`extreme_eq_some_iff`), whatever the order of the list (`extreme_perm`). Every type but that of
  doubles is ordered so (`strict_less`).
-/

import Mathlib.Data.String.Basic
import Mathlib.Order.Fin.Basic
import RuleExpr.Operation

namespace RuleExpr.Ty

variable {α : Type} {beats : α → α → Bool}

/-- The first of two, unless the second beats it. -/
def pick (beats : α → α → Bool) (a b : α) : α := if beats b a then b else a

theorem extreme_cons (v : α) (vs : List α) : extreme beats (v :: vs) = some (vs.foldl (pick beats) v) := rfl

theorem pick_eq_or (beats : α → α → Bool) (a b : α) : pick beats a b = a ∨ pick beats a b = b := by
  unfold pick
  split
  · exact .inr rfl
  · exact .inl rfl

theorem foldl_pick_mem (beats : α → α → Bool) (v : α) (vs : List α) : vs.foldl (pick beats) v ∈ v :: vs := by
  induction vs generalizing v with
  | nil => exact List.mem_cons_self
  | cons w rest ih =>
    rw [List.foldl_cons]
    rcases List.mem_cons.mp (ih (pick beats v w)) with h | h
    · rw [h]
      rcases pick_eq_or beats v w with hv | hw
      · rw [hv]
        exact List.mem_cons_self
      · rw [hw]
        exact List.mem_cons_of_mem v List.mem_cons_self
    · exact List.mem_cons_of_mem v (List.mem_cons_of_mem w h)

theorem extreme_mem {vs : List α} {v : α} (h : extreme beats vs = some v) : v ∈ vs := by
  cases vs with
  | nil => cases h
  | cons first rest =>
    obtain rfl := Option.some.inj h
    exact foldl_pick_mem beats first rest

/-! ## Strict orders -/

/-- Of any two values one beats the other, and it beats all that the other does. -/
structure Strict (beats : α → α → Bool) : Prop where
  irrefl : ∀ a, ¬ beats a a
  trans : ∀ {a b c}, beats a b → beats b c → beats a c
  total : ∀ a b, beats a b ∨ a = b ∨ beats b a

namespace Strict

theorem ofKey {κ : Type} [LinearOrder κ] (key : α → κ) (hkey : Function.Injective key)
    (h : ∀ a b, beats a b = true ↔ key a < key b) : Strict beats where
  irrefl a := fun ha => lt_irrefl _ ((h a a).mp ha)
  trans hab hbc := (h _ _).mpr (((h _ _).mp hab).trans ((h _ _).mp hbc))
  total a b := by
    rw [h, h, ← hkey.eq_iff]
    exact lt_trichotomy (key a) (key b)

theorem flip (h : Strict beats) : Strict fun a b => beats b a where
  irrefl := h.irrefl
  trans hab hbc := h.trans hbc hab
  total a b := (h.total b a).imp_right (.imp_left Eq.symm)

/-- What beats one value beats a second, or the second beats the first. -/
theorem between (h : Strict beats) {a c : α} (hac : beats a c) (b : α) : beats a b ∨ beats b c := by
  rcases h.total a b with hab | rfl | hba
  · exact .inl hab
  · exact .inr hac
  · exact .inr (h.trans hba hac)

end Strict

theorem pick_assoc (h : Strict beats) (a b c : α) :
    pick beats (pick beats a b) c = pick beats a (pick beats b c) := by
  unfold pick
  by_cases hba : beats b a <;> by_cases hcb : beats c b
  · simp [hba, hcb, h.trans hcb hba]
  · simp [hba, hcb]
  · simp [hba, hcb]
  · have hca : ¬ beats c a := fun hca => (h.between hca b).elim hcb hba
    simp [hba, hcb, hca]

/-- What is picked is not beaten by what does not beat both. -/
theorem not_beats_of_pick (h : Strict beats) {v w m : α} (hm : ¬ beats (pick beats v w) m) :
    ¬ beats v m ∧ ¬ beats w m := by
  unfold pick at hm
  by_cases hwv : beats w v
  · rw [if_pos hwv] at hm
    exact ⟨fun hvm => hm (h.trans hwv hvm), hm⟩
  · rw [if_neg hwv] at hm
    exact ⟨hm, fun hwm => (h.between hwm v).elim hwv hm⟩

theorem not_beats_foldl_pick (h : Strict beats) (v : α) (vs : List α) :
    ∀ w ∈ v :: vs, ¬ beats w (vs.foldl (pick beats) v) := by
  induction vs generalizing v with
  | nil =>
    intro w hw
    obtain rfl := List.mem_singleton.mp hw
    exact h.irrefl w
  | cons x rest ih =>
    have hpick := not_beats_of_pick h (ih (pick beats v x) _ List.mem_cons_self)
    intro w hw
    rcases List.mem_cons.mp hw with rfl | hw
    · exact hpick.1
    rcases List.mem_cons.mp hw with rfl | hw
    · exact hpick.2
    · exact ih (pick beats v x) w (List.mem_cons_of_mem _ hw)

theorem extreme_eq_some_iff (h : Strict beats) {vs : List α} {m : α} :
    extreme beats vs = some m ↔ m ∈ vs ∧ ∀ v ∈ vs, ¬ beats v m := by
  cases vs with
  | nil => simp [extreme]
  | cons first rest =>
    have hmem := foldl_pick_mem beats first rest
    have hunbeaten := not_beats_foldl_pick h first rest
    rw [extreme_cons, Option.some.injEq]
    constructor
    · rintro rfl
      exact ⟨hmem, hunbeaten⟩
    · rintro ⟨hm, hbest⟩
      rcases h.total (rest.foldl (pick beats) first) m with hlt | heq | hgt
      · exact absurd hlt (hbest _ hmem)
      · exact heq
      · exact absurd hgt (hunbeaten m hm)

theorem extreme_perm (h : Strict beats) {vs ws : List α} (hperm : vs.Perm ws) : extreme beats vs = extreme beats ws := by
  refine Option.ext fun m => ?_
  rw [extreme_eq_some_iff h, extreme_eq_some_iff h]
  simp only [hperm.mem_iff]

/-! ## The types -/

theorem strict_less {t : Ty} (ht : t ≠ .double) : Strict t.less := by
  cases t with
  | int =>
    refine .ofKey Int32.toInt (fun _ _ => Int32.toInt_inj.mp) fun a b => ?_
    show decide (a < b) = true ↔ _
    rw [decide_eq_true_iff, Int32.lt_iff_toInt_lt]
  | double => exact absurd rfl ht
  | text => exact .ofKey id Function.injective_id fun a b => decide_eq_true_iff
  | enum e =>
    refine .ofKey Member.rank (fun a b hab => ?_) fun a b => decide_eq_true_iff
    cases a
    cases b
    exact congrArg Member.mk hab

theorem maximum_assoc {t : Ty} (ht : t ≠ .double) : Std.Associative t.maximum := ⟨pick_assoc (strict_less ht).flip⟩

theorem minimum_assoc {t : Ty} (ht : t ≠ .double) : Std.Associative t.minimum := ⟨pick_assoc (strict_less ht)⟩

theorem greatest_perm {t : Ty} (ht : t ≠ .double) {vs ws : List t.Carrier} (h : vs.Perm ws) :
    t.greatest vs = t.greatest ws := extreme_perm (strict_less ht).flip h

theorem least_perm {t : Ty} (ht : t ≠ .double) {vs ws : List t.Carrier} (h : vs.Perm ws) :
    t.least vs = t.least ws := extreme_perm (strict_less ht) h

end RuleExpr.Ty
