/-
  RuleExpr.Proofs.Reordering — operands of ints in the other order.

  Sums, products, minima, maxima and draws of two ints do not depend on their order
  (`applyBinary_comm`); for draws this is so because the bounds are put in order before they are
  hashed. With the operands exchanged the other one of two failures may come first, so what is kept
  is success and the value, not the error: expressions that succeed in the same contexts with the
  same values stay so under every node (`congruence_sameValue`).
-/

import Mathlib.Order.Basic
import RuleExpr.Node.Eval
import RuleExpr.Proofs.ExactInteger
import RuleExpr.Proofs.Outcome
import RuleExpr.Proofs.Rewriting

namespace RuleExpr

/-! ## Commutative operators -/

/-- For ints the order of the operands makes no difference. -/
def BinaryOp.commutes : BinaryOp → Bool
  | plus | times | minimum | maximum | randomUniform => true
  | minus | divide | exponentiate => false

namespace Ty

open ExactInteger

theorem minimum_comm (v w : Int32) : minimum .int v w = minimum .int w v := by
  refine Int32.toInt_inj.mp ?_
  rw [toInt_minimum, toInt_minimum, min_comm]

theorem maximum_comm (v w : Int32) : maximum .int v w = maximum .int w v := by
  refine Int32.toInt_inj.mp ?_
  rw [toInt_maximum, toInt_maximum, max_comm]

/-- A draw is between the lesser and the greater of the operands. -/
theorem applyBinary_randomUniform (seed : UInt64) (v w : Int32) :
    applyBinary seed .int .randomUniform v w
      = checked (t := .int) (.binary .randomUniform)
          (drawBetween (t := .int) seed (minimum .int v w) (maximum .int v w)) := by
  show checked (t := .int) _ (if less .int w v then drawBetween (t := .int) seed w v
    else drawBetween (t := .int) seed v w) = _
  congr 1
  unfold minimum maximum
  by_cases hwv : less .int w v = true
  · have hvw : ¬ less .int v w = true := fun h => lt_asymm (less_int_iff.mp h) (less_int_iff.mp hwv)
    rw [if_pos hwv, if_pos hwv, if_neg hvw]
  · rw [if_neg hwv, if_neg hwv]
    by_cases hvw : less .int v w = true
    · rw [if_pos hvw]
    · obtain rfl : v = w := by
        refine Int32.toInt_inj.mp (le_antisymm ?_ ?_)
        · exact not_lt.mp (mt less_int_iff.mpr hwv)
        · exact not_lt.mp (mt less_int_iff.mpr hvw)
      rw [if_neg hvw]

theorem applyBinary_comm (seed : UInt64) {op : BinaryOp} (h : op.commutes = true) (v w : Int32) :
    applyBinary seed .int op v w = applyBinary seed .int op w v := by
  cases op with
  | plus =>
    show checked (t := .int) _ (int32? (v.toInt + w.toInt)) = checked _ (int32? (w.toInt + v.toInt))
    rw [add_comm]
  | times =>
    show checked (t := .int) _ (int32? (v.toInt * w.toInt)) = checked _ (int32? (w.toInt * v.toInt))
    rw [mul_comm]
  | minimum => exact congrArg Except.ok (minimum_comm v w)
  | maximum => exact congrArg Except.ok (maximum_comm v w)
  | randomUniform => rw [applyBinary_randomUniform, applyBinary_randomUniform, minimum_comm, maximum_comm]
  | minus | divide | exponentiate => cases h

end Ty

namespace Node

variable {H : Type}

/-- The operands of a commutative operator on ints exchanged. -/
def swapped : {t : Ty} → Node H t → Node H t
  | .int, binary op lhs rhs => if op.commutes then binary op rhs lhs else binary op lhs rhs
  | _, n => n

/-- With the operands exchanged at marked positions. -/
def swapAt {t : Ty} (n : Node H t) (marked : List Nat → Bool) : Node H t :=
  n.rewriteAt fun p _ m => if marked p then m.swapped else m

variable [HostCondition H] {t : Ty}

/-- Both have the same value or neither has one. -/
def SameValue (a b : Node H t) : Prop := ∀ c v, a.eval c = .ok v ↔ b.eval c = .ok v

theorem congruence_sameValue : Congruence (H := H) SameValue where
  refl _ _ _ := Iff.rfl
  trans hab hbd c v := (hab c v).trans (hbd c v)
  staticCast h c v := by simp only [eval, Outcome.bind_eq_ok, h c]
  textCast h c v := by simp only [eval, Outcome.bind_eq_ok, h c]
  unary op h c v := by simp only [eval, Outcome.bind_eq_ok, h c]
  binary op h h' c v := by simp only [eval, Outcome.bind_eq_ok, h c, h' c]

theorem eval_exchanged {op : BinaryOp} (h : op.commutes = true) {lhs rhs : Node H .int} {c : Context} {v : Int32}
    (hv : (binary op lhs rhs).eval c = .ok v) : (binary op rhs lhs).eval c = .ok v := by
  obtain ⟨x, hx, hrest⟩ := Outcome.bind_eq_ok.mp hv
  obtain ⟨y, hy, hxy⟩ := Outcome.bind_eq_ok.mp hrest
  have hyx := (Ty.applyBinary_comm c.seed h y x).trans hxy
  exact Outcome.bind_eq_ok.mpr ⟨y, hy, Outcome.bind_eq_ok.mpr ⟨x, hx, hyx⟩⟩

theorem sameValue_swapped (n : Node H t) : n.swapped.SameValue n := by
  unfold swapped
  split
  · next op lhs rhs =>
    split
    · next h => exact fun c v => ⟨eval_exchanged h, eval_exchanged h⟩
    · exact congruence_sameValue.refl _
  · exact congruence_sameValue.refl _

/-- Operands of commutative operators on ints can be exchanged anywhere, at once, without a change
    of whether there is a value or of the value. -/
theorem eval_swapAt (n : Node H t) (marked : List Nat → Bool) (c : Context) (v : t.Carrier) :
    (n.swapAt marked).eval c = .ok v ↔ n.eval c = .ok v := by
  have h : (n.swapAt marked).SameValue n := by
    refine congruence_sameValue.rewriteAt n _ fun p _ m => ?_
    split
    · exact sameValue_swapped m
    · exact congruence_sameValue.refl m
  exact h c v

/-- The error does change, if both operands fail. -/
example :
    let absent : Node Empty .int := var ⟨["absent"], by decide, by decide⟩
    let sum : Node Empty .int := binary .plus (binary .divide (constant 1) (constant 0)) absent
    sum.evalAlone = .error (.arithmetic .divisionByZero) ∧
      (sum.swapAt fun _ => true).evalAlone = .error (.property (.unknownOfUniverse "absent")) :=
  ⟨rfl, rfl⟩

end Node

end RuleExpr
