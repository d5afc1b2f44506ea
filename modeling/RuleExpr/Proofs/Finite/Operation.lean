/-
  RuleExpr.Proofs.Finite.Operation — operators and reductions keep doubles finite.

  Results that are computed are tested where they arise; results that are one of the operands
  (a minimum, a most frequent value) are as finite as these are (`mode_mem`, `extreme_mem`);
  what is left are zero, one and numbers of objects, of which there are at most 2 ^ 32. So from
  finite operands an operator gives a finite double or an error (`gives_applyBinary`), and so
  does a reduction of finite values (`gives_reduce`).
-/

import RuleExpr.Proofs.Finite.Integer
import RuleExpr.Proofs.Outcome
import RuleExpr.Proofs.Reduction.Extreme
import RuleExpr.Proofs.Reduction.Mode

namespace RuleExpr

open Outcome DoubleArithmetic

/-- Neither a NaN nor an infinity, which only a double can be. -/
def Ty.Finite : (t : Ty) → t.Carrier → Prop
  | .double, x => x.isFinite = true
  | _, _ => True

instance : (t : Ty) → (v : t.Carrier) → Decidable (t.Finite v)
  | .double, x => inferInstanceAs (Decidable (x.isFinite = true))
  | .int, _ | .text, _ | .enum _, _ => isTrue trivial

namespace Ty

theorem finite_of_ne_double {t : Ty} (ht : t ≠ .double) (v : t.Carrier) : t.Finite v := by
  cases t with
  | double => exact absurd rfl ht
  | _ => trivial

theorem finite_of_finite? {x y : Float} (h : finite? x = some y) : Finite .double y := by
  unfold finite? at h
  split at h
  · next hx =>
    obtain rfl := Option.some.inj h
    exact hx
  · cases h

theorem gives_ofFloat (x : Float) : Gives (Finite .double) (ofFloat x) := by
  unfold ofFloat
  split
  · next h => exact finite_of_finite? h
  · trivial

theorem finite_zero : Finite .double (Numeric.zero (t := .double)) := by
  show Float.isFinite 0.0 = true
  decide

theorem finite_one : Finite .double (Numeric.one (t := .double)) := by
  show Float.isFinite 1.0 = true
  decide

/-! ## Operators -/

theorem gives_checked {op : Op} {o : Option Float} (h : ∀ x, o = some x → Finite .double x) :
    Gives (Finite .double) (checked (t := .double) op o) := by
  cases o with
  | none => trivial
  | some x => exact h x rfl

theorem gives_applyUnary (op : UnaryOp) (x : Float) : Gives (Finite .double) (applyUnary .double op x) := by
  show Gives _ (numericUnary (t := .double) op x)
  cases op with
  | negate => exact gives_checked fun _ => finite_of_finite?
  | abs => exact gives_checked fun _ => finite_of_finite?
  | logarithm =>
    unfold numericUnary
    dsimp only
    split
    · trivial
    · exact gives_ofFloat _
  | sine => exact gives_ofFloat _
  | cosine => exact gives_ofFloat _

theorem finite_pick (beats : Float → Float → Bool) {x y : Float} (hx : Finite .double x) (hy : Finite .double y) :
    Finite .double (pick beats x y) := by
  rcases pick_eq_or beats x y with h | h
  · rw [h]
    exact hx
  · rw [h]
    exact hy

theorem gives_applyBinary (seed : UInt64) (op : BinaryOp) {x y : Float} (hx : Finite .double x)
    (hy : Finite .double y) : Gives (Finite .double) (applyBinary seed .double op x y) := by
  show Gives _ (numericBinary (t := .double) seed op x y)
  cases op with
  | plus => exact gives_checked fun _ => finite_of_finite?
  | minus => exact gives_checked fun _ => finite_of_finite?
  | times => exact gives_checked fun _ => finite_of_finite?
  | divide =>
    unfold numericBinary
    dsimp only
    split
    · trivial
    · exact gives_checked fun _ => finite_of_finite?
  | exponentiate => exact gives_checked fun _ => finite_of_finite?
  | minimum => exact finite_pick (less .double) hx hy
  | maximum => exact finite_pick (fun w best => less .double best w) hx hy
  | randomUniform =>
    refine gives_checked fun z hz => ?_
    split at hz
    · exact finite_of_finite? hz
    · exact finite_of_finite? hz

/-! ## Reductions -/

theorem gives_checkedReduction {r : Reduction} {o : Option Float} (h : ∀ x, o = some x → Finite .double x) :
    Gives (Finite .double) (checkedReduction (t := .double) r o) := by
  cases o with
  | none => trivial
  | some x => exact h x rfl

/-- A total is its start or the result of a last step. -/
theorem finite_foldlM {f : Float → Float → Option Float} (hf : ∀ {a x b}, f a x = some b → Finite .double b)
    {xs : List Float} {a b : Float} (ha : Finite .double a) (h : xs.foldlM f a = some b) : Finite .double b := by
  induction xs generalizing a with
  | nil =>
    obtain rfl := Option.some.inj h
    exact ha
  | cons x rest ih =>
    obtain ⟨c, hc, hb⟩ := Option.bind_eq_some_iff.mp (List.foldlM_cons.symm.trans h)
    exact ih (hf hc) hb

theorem finite_getD {o : Option Float} (h : ∀ x, o = some x → Finite .double x) :
    Finite .double (o.getD (Numeric.zero (t := .double))) := by
  cases o with
  | none => exact finite_zero
  | some x => exact h x rfl

theorem length_eraseDups_le {α : Type} [BEq α] : ∀ l : List α, l.eraseDups.length ≤ l.length
  | [] => Nat.le_refl _
  | a :: rest => by
    have hrest := length_eraseDups_le (rest.filter fun b => !b == a)
    have hfilter := List.length_filter_le (fun b => !b == a) rest
    rw [List.eraseDups_cons, List.length_cons, List.length_cons]
    omega
termination_by l => l.length
decreasing_by exact Nat.lt_succ_of_le (List.length_filter_le _ _)

theorem gives_ofCount {n : Nat} (hn : n ≤ 2 ^ 32) : Gives (Finite .double) (Numeric.ofCount (t := .double) n) :=
  Binary64.isFinite_ofNat (Nat.lt_of_le_of_lt hn (by decide))

theorem gives_reduce (r : Reduction) {xs : List Float} {n : Nat} (hxs : ∀ x ∈ xs, Finite .double x)
    (hlen : xs.length ≤ 2 ^ 32) (hn : n ≤ 2 ^ 32) : Gives (Finite .double) (reduce .double r xs n) := by
  show Gives _ (numericReduce (t := .double) r xs n)
  cases r with
  | count => exact gives_ofCount hn
  | any =>
    unfold numericReduce
    dsimp only
    split
    · exact finite_one
    · exact finite_zero
  | uniqueCount =>
    have hkeys := length_eraseDups_le (xs.map (key .double))
    rw [List.length_map] at hkeys
    exact gives_ofCount (Nat.le_trans hkeys hlen)
  | sum => exact gives_checkedReduction fun _ => finite_foldlM finite_of_finite? finite_zero
  | product => exact gives_checkedReduction fun _ => finite_foldlM finite_of_finite? finite_one
  | mean =>
    unfold numericReduce
    dsimp only
    split
    · exact finite_zero
    · refine (gives_true _).bind fun size _ => (gives_true _).bind fun total _ => ?_
      exact gives_checkedReduction fun _ => finite_of_finite?
  | rms =>
    unfold numericReduce
    dsimp only
    split
    · exact finite_zero
    · exact gives_ofFloat _
  | stdev =>
    unfold numericReduce
    dsimp only
    split
    · exact finite_zero
    · exact gives_ofFloat _
  | max => exact finite_getD fun x hx => hxs x (extreme_mem hx)
  | min => exact finite_getD fun x hx => hxs x (extreme_mem hx)
  | spread =>
    unfold numericReduce
    dsimp only
    split
    · exact gives_checkedReduction fun _ => finite_of_finite?
    · exact finite_zero
  | mode => exact finite_getD fun x hx => hxs x (mode_mem hx)

end Ty

end RuleExpr
