/-
  RuleExpr.Proofs.Reduction.Integers — reductions of ints in exact arithmetic.

  All reductions but three have a definition over the integers, with a condition on what has to have
  32 bits (`Reduction.ideal?`); of the others two go through doubles and one is by counting. Where
  the condition holds a reduction of ints comes to the integer of that definition, and where it does
  not it is an arithmetic error, so nothing ever wraps (`reduce_exact`). The totals are those of
  `Reduction.total?`. The extremes carry over to the integers (`max?_ints`, `min?_ints`), so does the
  number of different values (`length_keys`).
-/

import Mathlib.Data.Finset.Card
import RuleExpr.Proofs.ExactInteger
import RuleExpr.Proofs.Reduction.Exact
import RuleExpr.Proofs.Reduction.Extreme

namespace RuleExpr

open Ty ExactInteger

/-- From the least to the greatest; nothing has no extent. -/
def extent (ns : List Int) : Int := ns.max?.getD 0 - ns.min?.getD 0

/-- The reductions of ints as integers define them, of `n` matches. -/
def Reduction.ideal? (n : Nat) : Reduction → Option Total
  | .count => some ⟨fun _ => Has32Bits n, fun _ => n⟩
  | .any => some ⟨fun _ => True, fun _ => if 0 < n then 1 else 0⟩
  | .uniqueCount => some ⟨fun _ => True, fun ns => ns.toFinset.card⟩
  | .sum => some ⟨fun ns => ∀ p ∈ ns.inits, Has32Bits p.sum, List.sum⟩
  | .product => some ⟨fun ns => ∀ p ∈ ns.inits, Has32Bits p.prod, List.prod⟩
  | .mean => some ⟨fun ns => ∀ p ∈ ns.inits, Has32Bits p.sum, fun ns => if ns = [] then 0 else ns.sum.tdiv ns.length⟩
  | .max => some ⟨fun _ => True, fun ns => ns.max?.getD 0⟩
  | .min => some ⟨fun _ => True, fun ns => ns.min?.getD 0⟩
  | .spread => some ⟨fun ns => Has32Bits (extent ns), extent⟩
  | .mode | .rms | .stdev => none

/-! ## Extremes and numbers -/

theorem max?_ints (vs : List Int32) : (vs.map Int32.toInt).max? = (greatest .int vs).map Int32.toInt := by
  cases vs with
  | nil => rfl
  | cons v rest =>
    rw [List.map_cons, List.max?_cons', List.foldl_map, List.foldl_hom Int32.toInt fun a b => (toInt_maximum a b).symm]
    rfl

theorem min?_ints (vs : List Int32) : (vs.map Int32.toInt).min? = (least .int vs).map Int32.toInt := by
  cases vs with
  | nil => rfl
  | cons v rest =>
    rw [List.map_cons, List.min?_cons', List.foldl_map, List.foldl_hom Int32.toInt fun a b => (toInt_minimum a b).symm]
    rfl

theorem extent_nonneg (ns : List Int) : 0 ≤ extent ns := by
  unfold extent
  cases ns with
  | nil => rfl
  | cons n rest =>
    obtain ⟨m, hm⟩ := Option.isSome_iff_exists.mp (List.isSome_max?_of_mem (List.mem_cons_self (a := n) (l := rest)))
    obtain ⟨l, hl⟩ := Option.isSome_iff_exists.mp (List.isSome_min?_of_mem (List.mem_cons_self (a := n) (l := rest)))
    have hle := (List.max?_eq_some_iff.mp hm).2 n List.mem_cons_self
    have hge := (List.min?_eq_some_iff.mp hl).2 n List.mem_cons_self
    rw [hm, hl]
    simp only [Option.getD_some]
    omega

theorem length_keys (vs : List Int32) :
    (vs.map (key .int)).eraseDups.length = (vs.map Int32.toInt).toFinset.card := by
  have hkey : vs.map (key .int) = (vs.map Int32.toInt).map Key.ordinal := by simp [key]
  have hinj : Function.Injective Key.ordinal := fun a b => Key.ordinal.inj
  rw [hkey, (eraseDups_perm_dedup _).length_eq, List.dedup_map_of_injective hinj, List.length_map, List.card_toFinset]

/-! ## Reductions -/

namespace Total

open Outcome

theorem Decides.congr {T T' : Total} {ns : List Int} {o : Outcome Int32} (h : T.Decides ns o)
    (hfits : T.fits ns ↔ T'.fits ns) (hvalue : T.value ns = T'.value ns) : T'.Decides ns o := by
  unfold Decides at h ⊢
  rwa [← hfits, ← hvalue]

theorem decides_ofCount {T : Total} {ns : List Int} {k : Nat} (hfits : T.fits ns ↔ Has32Bits k)
    (hvalue : T.value ns = k) : T.Decides ns (IntArithmetic.ofCount k) := by
  have hexact := exactly_int32? k
  unfold IntArithmetic.ofCount
  generalize int32? k = o at hexact
  cases hexact with
  | value hk hi => exact ⟨hfits.mpr hk, hi.trans hvalue.symm⟩
  | refused hk => exact ⟨fun h => hk (hfits.mp h), _, rfl⟩

theorem decides_spread {T : Total} {n : Nat} (hT : Reduction.spread.ideal? n = some T) (vs : List Int32) :
    T.Decides (vs.map Int32.toInt) (reduce .int .spread vs n) := by
  obtain rfl := Option.some.inj hT
  have hmax := max?_ints vs
  have hmin := min?_ints vs
  cases vs with
  | nil => exact ⟨has32Bits_toInt 0, rfl⟩
  | cons v rest =>
    show Decides _ _ (checkedReduction (t := .int) .spread (int32? _))
    refine decides_checkedReduction ?_
    show Exactly (Has32Bits (extent _)) (extent _) _
    unfold extent
    rw [hmax, hmin]
    exact exactly_int32? _

/-- In so short a list even the number of the values and of the different ones among them fits. -/
theorem decides_ideal {vs : List Int32} (hlen : vs.length ≤ 2147483647) {n : Nat} {r : Reduction} {T : Total}
    (hT : r.ideal? n = some T) : T.Decides (vs.map Int32.toInt) (reduce .int r vs n) := by
  have hfits {k : Nat} (hk : k ≤ vs.length) : Has32Bits k := ⟨by omega, by omega⟩
  cases r with
  | count =>
    obtain rfl := Option.some.inj hT
    exact decides_ofCount .rfl rfl
  | any =>
    obtain rfl := Option.some.inj hT
    refine ⟨trivial, ?_⟩
    by_cases hn : 0 < n
    · rw [if_pos hn, if_pos hn]
      rfl
    · rw [if_neg hn, if_neg hn]
      rfl
  | uniqueCount =>
    obtain rfl := Option.some.inj hT
    have hcard : (vs.map Int32.toInt).toFinset.card ≤ vs.length := by
      simpa using (vs.map Int32.toInt).toFinset_card_le
    show Decides _ _ (IntArithmetic.ofCount (vs.map (key .int)).eraseDups.length)
    rw [length_keys]
    exact decides_ofCount (iff_of_true trivial (hfits hcard)) rfl
  | sum =>
    obtain rfl := Option.some.inj hT
    exact decides_reduce (r := .sum) rfl vs n
  | product =>
    obtain rfl := Option.some.inj hT
    exact decides_reduce (r := .product) rfl vs n
  | mean =>
    obtain rfl := Option.some.inj hT
    refine (decides_mean rfl vs n).congr ?_ ?_
    · exact and_iff_right (hfits (by simp))
    · show _ = if _ then _ else _
      split
      · next hnil =>
        rw [hnil]
        rfl
      · rfl
  | max =>
    obtain rfl := Option.some.inj hT
    refine ⟨trivial, ?_⟩
    show _ = (vs.map Int32.toInt).max?.getD 0
    rw [max?_ints]
    cases greatest .int vs <;> rfl
  | min =>
    obtain rfl := Option.some.inj hT
    refine ⟨trivial, ?_⟩
    show _ = (vs.map Int32.toInt).min?.getD 0
    rw [min?_ints]
    cases least .int vs <;> rfl
  | spread => exact decides_spread hT vs
  | mode => cases hT
  | rms => cases hT
  | stdev => cases hT

end Total

namespace Ty

/-- A reduction of ints is the one of the integers, or an arithmetic error where that is refused; a
    spread is never negative. -/
theorem reduce_exact (vs : List Int32) (hlen : vs.length ≤ 2147483647) (n : Nat) :
    (∀ (r : Reduction) (T : Total), r.ideal? n = some T → T.Decides (vs.map Int32.toInt) (reduce .int r vs n)) ∧
      ∀ i, reduce .int .spread vs n = .ok i → 0 ≤ i.toInt := by
  refine ⟨fun r T hT => Total.decides_ideal hlen hT, fun i hi => ?_⟩
  have hspread := Total.decides_spread (n := n) rfl vs
  obtain ⟨-, hvalue⟩ := hspread.value hi
  rw [hvalue]
  exact extent_nonneg _

/-- From the least int on: the mean is rounded toward zero, and the spread is one too many. -/
theorem reduce_exact_fromLeast :
    let vs : List Int32 := [-2147483648, 1, 1, 0]
    vs.length ≤ 2147483647 ∧ Reduction.mean.ideal? 4 ≠ none ∧ reduce .int .mean vs 4 = .ok (-536870911) ∧
      ∃ fault, reduce .int .spread vs 4 = .error (.arithmetic fault) := by
  intro vs
  have hlen : vs.length ≤ 2147483647 := by decide
  have hmean := (reduce_exact vs hlen 4).1 .mean _ rfl
  have hspread := (reduce_exact vs hlen 4).1 .spread _ rfl
  have hprefixes : ∀ p ∈ (vs.map Int32.toInt).inits, Has32Bits p.sum := by decide
  have hextent : ¬ Has32Bits (extent (vs.map Int32.toInt)) := by decide
  refine ⟨hlen, nofun, ?_, ?_⟩
  · generalize reduce .int .mean vs 4 = outcome at hmean
    cases outcome with
    | ok i =>
      have hrounded : (vs.map Int32.toInt).sum.tdiv (vs.map Int32.toInt).length = Int32.toInt (-536870911) := by decide
      exact congrArg Except.ok (Int32.toInt_inj.mp (hmean.2.trans hrounded))
    | error e => exact absurd hprefixes hmean.1
  · generalize reduce .int .spread vs 4 = outcome at hspread
    cases outcome with
    | ok i => exact absurd hspread.1 hextent
    | error e =>
      obtain ⟨-, fault, rfl⟩ := hspread
      exact ⟨fault, rfl⟩

end Ty

end RuleExpr
