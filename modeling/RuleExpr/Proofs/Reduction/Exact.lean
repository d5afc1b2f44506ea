/-
  RuleExpr.Proofs.Reduction.Exact — totals of ints against exact arithmetic.

  Sum, product and mean of ints are computed value by value, and no step may leave the 32 bits. So a
  total exists only if everything on the way to it fits (`Total.fits`), and then it is that of the
  integers (`Total.value`). A loop whose steps are exact, or refused, ends so (`exactly_foldlM`), and
  with it each of the three reductions (`decides_reduce`). What a total comes to does not depend on
  the order of the values (`Total.value_perm`); what is on the way to it does.

  The number of different values is that of a list with all repetitions removed
  (`eraseDups_perm_dedup`), so it does not depend on their order either.
-/

import Mathlib.Algebra.BigOperators.Group.List.Basic
import Mathlib.Algebra.Ring.Int.Defs
import Mathlib.Data.List.Dedup
import Mathlib.Data.List.Infix
import RuleExpr.Proofs.Outcome
import RuleExpr.Operation

namespace RuleExpr

/-- An int can hold the integer. -/
def Has32Bits (n : Int) : Prop := -2147483648 ≤ n ∧ n ≤ 2147483647

instance (n : Int) : Decidable (Has32Bits n) := inferInstanceAs (Decidable (_ ∧ _))

theorem has32Bits_toInt (i : Int32) : Has32Bits i.toInt := by
  have hlo := i.le_toInt
  have hhi := i.toInt_lt
  exact ⟨by omega, by omega⟩

theorem Has32Bits.tdiv {n d : Int} (hn : Has32Bits n) (hd : 0 ≤ d) : Has32Bits (n.tdiv d) := by
  obtain ⟨hlo, hhi⟩ := hn
  rcases Int.le_total 0 n with h | h
  · have hle := Int.tdiv_le_self d h
    have hnonneg := Int.tdiv_nonneg h hd
    exact ⟨by omega, by omega⟩
  · have hle := Int.tdiv_le_self d (Int.neg_nonneg_of_nonpos h)
    have hnonneg := Int.tdiv_nonneg (Int.neg_nonneg_of_nonpos h) hd
    rw [Int.neg_tdiv] at hle hnonneg
    exact ⟨by omega, by omega⟩

/-! ## Loops with checked steps -/

/-- The integer `n` just where `fits` allows for it. -/
inductive Exactly (fits : Prop) (n : Int) : Option Int32 → Prop where
  | value {i : Int32} (hfits : fits) (hi : i.toInt = n) : Exactly fits n (some i)
  | refused (hfits : ¬ fits) : Exactly fits n none

theorem exactly_int32? (n : Int) : Exactly (Has32Bits n) n (int32? n) := by
  cases h : int32? n with
  | some i =>
    obtain rfl := int32?_eq_some_iff.mp h
    exact .value (has32Bits_toInt i) rfl
  | none =>
    have hmin : Int32.minValue.toInt = -2147483648 := rfl
    have hmax : Int32.maxValue.toInt = 2147483647 := rfl
    have hout := int32?_eq_none_iff.mp h
    refine .refused ?_
    rintro ⟨hlo, hhi⟩
    omega

theorem exists_int32? {n : Int} (h : Has32Bits n) : ∃ i, int32? n = some i := by
  have hexact := exactly_int32? n
  generalize int32? n = o at hexact
  cases hexact with
  | value _ _ => exact ⟨_, rfl⟩
  | refused hfits => exact absurd h hfits

/-- All that a loop passes through are the results of the prefixes. -/
theorem exactly_foldlM {step? : Int32 → Int32 → Option Int32} (step : Int → Int → Int)
    (hstep : ∀ a v, step? a v = int32? (step a.toInt v.toInt)) (a : Int32) (vs : List Int32) :
    Exactly (∀ p ∈ (vs.map Int32.toInt).inits, Has32Bits (p.foldl step a.toInt))
      ((vs.map Int32.toInt).foldl step a.toInt) (vs.foldlM step? a) := by
  induction vs generalizing a with
  | nil => exact .value (by simpa using has32Bits_toInt a) rfl
  | cons v rest ih =>
    have hnext := exactly_int32? (step a.toInt v.toInt)
    rw [List.foldlM_cons, hstep]
    simp only [List.map_cons, List.inits_cons, List.forall_mem_cons, List.forall_mem_map, List.foldl_cons,
      List.foldl_nil]
    generalize int32? (step a.toInt v.toInt) = next at hnext
    cases hnext with
    | refused hfits =>
      refine .refused ?_
      rintro ⟨-, hprefixes⟩
      exact hfits (hprefixes [] ((List.mem_inits _ _).mpr List.nil_prefix))
    | @value b hfits hb =>
      rw [← hb]
      have hrest := ih b
      show Exactly _ _ (rest.foldlM step? b)
      generalize rest.foldlM step? b = result at hrest
      cases hrest with
      | value hall hr => exact .value ⟨has32Bits_toInt a, hall⟩ hr
      | refused hall => exact .refused fun h => hall h.2

namespace Ty

theorem exactly_total? (vs : List Int32) :
    Exactly (∀ p ∈ (vs.map Int32.toInt).inits, Has32Bits p.sum) (vs.map Int32.toInt).sum (total? (t := .int) vs) := by
  simp only [List.sum_eq_foldl]
  exact exactly_foldlM (· + ·) (fun _ _ => rfl) 0 vs

theorem exactly_product? (vs : List Int32) :
    Exactly (∀ p ∈ (vs.map Int32.toInt).inits, Has32Bits p.prod) (vs.map Int32.toInt).prod
      (product? (t := .int) vs) := by
  simp only [List.prod_eq_foldl]
  exact exactly_foldlM (· * ·) (fun _ _ => rfl) 1 vs

end Ty

/-! ## Totals -/

/-- Of integers without bounds: what has to have 32 bits on the way, and what comes out. -/
structure Total where
  fits : List Int → Prop
  value : List Int → Int

/-- The reductions that are computed value by value. -/
def Reduction.total? : Reduction → Option Total
  | .sum => some ⟨fun ns => ∀ p ∈ ns.inits, Has32Bits p.sum, List.sum⟩
  | .product => some ⟨fun ns => ∀ p ∈ ns.inits, Has32Bits p.prod, List.prod⟩
  | .mean => some ⟨fun ns => Has32Bits ns.length ∧ ∀ p ∈ ns.inits, Has32Bits p.sum, fun ns => ns.sum.tdiv ns.length⟩
  | _ => none

namespace Total

open Outcome Ty

/-- A value exactly where all fits, and then that of the integers; else an arithmetic error. -/
def Decides (T : Total) (ns : List Int) : Outcome Int32 → Prop :=
  Meets (fun i => T.fits ns ∧ i.toInt = T.value ns) fun e => ¬ T.fits ns ∧ ∃ fault, e = .arithmetic fault

theorem value_perm {r : Reduction} {T : Total} (hT : r.total? = some T) {ns ms : List Int} (h : ns.Perm ms) :
    T.value ns = T.value ms := by
  cases r with
  | sum =>
    obtain rfl := Option.some.inj hT
    exact h.sum_eq
  | product =>
    obtain rfl := Option.some.inj hT
    exact h.prod_eq
  | mean =>
    obtain rfl := Option.some.inj hT
    show ns.sum.tdiv ns.length = ms.sum.tdiv ms.length
    rw [h.sum_eq, h.length_eq]
  | _ => cases hT

theorem decides_checkedReduction {T : Total} {ns : List Int} {r : Reduction} {o : Option Int32}
    (h : Exactly (T.fits ns) (T.value ns) o) : T.Decides ns (checkedReduction (t := .int) r o) := by
  cases h with
  | value hfits hi => exact ⟨hfits, hi⟩
  | refused hfits => exact ⟨hfits, _, rfl⟩

/-- A quotient by the number of values fits because the total does. -/
theorem decides_mean {T : Total} (hT : Reduction.mean.total? = some T) (vs : List Int32) (n : Nat) :
    T.Decides (vs.map Int32.toInt) (reduce .int .mean vs n) := by
  obtain rfl := Option.some.inj hT
  by_cases hvs : vs = []
  · subst hvs
    have hzero : Has32Bits 0 := has32Bits_toInt 0
    exact ⟨⟨hzero, by simpa using hzero⟩, rfl⟩
  have hreduce : reduce .int .mean vs n = IntArithmetic.ofCount vs.length >>= fun size =>
      checkedReduction (t := .int) .mean (total? (t := .int) vs) >>= fun total =>
        checkedReduction (t := .int) .mean (int32? (total.toInt.tdiv size.toInt)) :=
    if_neg (by simpa using hvs)
  have hsize := exactly_int32? vs.length
  have htotal := exactly_total? vs
  rw [hreduce, IntArithmetic.ofCount]
  generalize int32? vs.length = size? at hsize
  generalize total? (t := .int) vs = total? at htotal
  rw [← List.length_map (f := Int32.toInt)] at hsize
  cases hsize with
  | refused hfits => exact ⟨fun h => hfits h.1, _, rfl⟩
  | @value size hfitsSize hsize =>
    cases htotal with
    | refused hfits => exact ⟨fun h => hfits h.2, _, rfl⟩
    | @value total hfitsTotal htotal =>
      have hnonneg : 0 ≤ size.toInt := by
        rw [hsize]
        exact Int.natCast_nonneg _
      obtain ⟨i, hi⟩ := exists_int32? ((has32Bits_toInt total).tdiv hnonneg)
      show Decides _ _ (checkedReduction (t := .int) .mean (int32? (total.toInt.tdiv size.toInt)))
      rw [hi]
      refine ⟨⟨hfitsSize, hfitsTotal⟩, ?_⟩
      rw [int32?_eq_some_iff.mp hi, hsize, htotal]

theorem decides_reduce {r : Reduction} {T : Total} (hT : r.total? = some T) (vs : List Int32) (n : Nat) :
    T.Decides (vs.map Int32.toInt) (reduce .int r vs n) := by
  cases r with
  | sum =>
    obtain rfl := Option.some.inj hT
    exact decides_checkedReduction (exactly_total? vs)
  | product =>
    obtain rfl := Option.some.inj hT
    exact decides_checkedReduction (exactly_product? vs)
  | mean => exact decides_mean hT vs n
  | _ => cases hT

end Total

/-! ## Different values -/

section Different

variable {α : Type} [DecidableEq α]

theorem nodup_eraseDups : ∀ l : List α, l.eraseDups.Nodup
  | [] => List.nodup_nil
  | a :: rest => by
    rw [List.eraseDups_cons, List.nodup_cons]
    refine ⟨fun ha => ?_, nodup_eraseDups (rest.filter fun b => !b == a)⟩
    have hmem := List.mem_filter.mp (List.mem_eraseDups.mp ha)
    simp at hmem
termination_by l => l.length
decreasing_by exact Nat.lt_succ_of_le (List.length_filter_le _ _)

theorem eraseDups_perm_dedup (l : List α) : l.eraseDups.Perm l.dedup := by
  refine (List.perm_ext_iff_of_nodup (nodup_eraseDups l) l.nodup_dedup).mpr fun a => ?_
  rw [List.mem_eraseDups, List.mem_dedup]

end Different

end RuleExpr
