/-
  RuleExpr.Proofs.ExactInteger — evaluation of ints against exact integer arithmetic.

  `Node.evalExact` evaluates a tree of ints over the unbounded integers: leaves have the
  outcomes that they have, operands are taken from left to right up to the first failure,
  quotients are rounded toward zero, and an operation fails where its divisor is zero or
  its exact result does not have 32 bits. As long as no negative exponent is reached
  (`Node.ExponentsNonneg`; such powers go through doubles), evaluation gives just that:
  no result wraps, and none that fits is refused (`evalExact_eq_map`).
-/

import Mathlib.Algebra.Order.Ring.Int
import Mathlib.Algebra.Ring.Parity
import RuleExpr.Node.Eval

namespace RuleExpr

/-! ## The reference -/

/-- Values without bounds: an int can be any integer. -/
abbrev Ty.Ideal : Ty → Type
  | .int => Int
  | .double => Float
  | .text => String
  | .enum e => Member e

def Ty.ideal : (t : Ty) → t.Carrier → t.Ideal
  | .int, n => n.toInt
  | .double, x => x
  | .text, s => s
  | .enum _, m => m

namespace ExactInteger

/-- An exact result, if it has 32 bits. -/
def bounded (op : Op) (n : Int) : Outcome Int :=
  if -2147483648 ≤ n ∧ n ≤ 2147483647 then .ok n else .error (.arithmetic (.operatorOverflow op .int))

/-- What an operator does with integers; `none` for the operators that go through doubles. -/
def unary? (op : UnaryOp) : Option (Int → Outcome Int) :=
  match op with
  | .negate => some fun x => bounded (.unary op) (-x)
  | .abs => some fun x => bounded (.unary op) |x|
  | .logarithm | .sine | .cosine => none

def binary? (op : BinaryOp) : Option (Int → Int → Outcome Int) :=
  match op with
  | .plus => some fun x y => bounded (.binary op) (x + y)
  | .minus => some fun x y => bounded (.binary op) (x - y)
  | .times => some fun x y => bounded (.binary op) (x * y)
  | .divide => some fun x y =>
    if y = 0 then .error (.arithmetic .divisionByZero) else bounded (.binary op) (x.tdiv y)
  | .exponentiate => some fun x y => bounded (.binary op) (x ^ y.toNat)
  | .minimum => some fun x y => .ok (min x y)
  | .maximum => some fun x y => .ok (max x y)
  | .randomUniform => none

end ExactInteger

namespace Node

open ExactInteger

variable {H : Type} [HostCondition H]

def evalExact (c : Context) : {t : Ty} → Node H t → Outcome t.Ideal
  | .int, unary op operand => match unary? op with
    | some f => do
      let x ← evalExact c operand
      f x
    | none => ((unary op operand).eval c).map Int32.toInt
  | .int, binary op lhs rhs => match binary? op with
    | some f => do
      let x ← evalExact c lhs
      let y ← evalExact c rhs
      f x y
    | none => ((binary op lhs rhs).eval c).map Int32.toInt
  | t, n => (n.eval c).map t.ideal

/-- No exponent that evaluation reaches is negative. -/
def ExponentsNonneg (c : Context) : {t : Ty} → Node H t → Prop
  | .int, unary _ operand => ExponentsNonneg c operand
  | .int, binary op lhs rhs =>
    ExponentsNonneg c lhs ∧ ∀ v, lhs.eval c = .ok v →
      ExponentsNonneg c rhs ∧ (op = .exponentiate → ∀ w, rhs.eval c = .ok w → 0 ≤ w.toInt)
  | _, _ => True

end Node

/-! ## Powers -/

namespace IntArithmetic

theorem pow_of_natAbs_le_one {base : Int} (hb : base.natAbs ≤ 1) {e : Nat} (he : e ≠ 0) :
    base ^ (2 - e % 2) = base ^ e := by
  have hbase : base = 0 ∨ base = 1 ∨ base = -1 := by omega
  rcases hbase with rfl | rfl | rfl
  · rw [zero_pow he, zero_pow (by omega)]
  · rw [one_pow, one_pow]
  · rcases Nat.even_or_odd e with h | h
    · rw [h.neg_one_pow, Nat.even_iff.mp h]
      rfl
    · rw [h.neg_one_pow, Nat.odd_iff.mp h]
      rfl

theorem int32?_pow_eq_none {base : Int} (hb : 2 ≤ base.natAbs) {e : Nat} (he : 32 ≤ e) :
    int32? (base ^ e) = none := by
  have hpow : 2 ^ 32 ≤ (base ^ e).natAbs :=
    calc 2 ^ 32 ≤ 2 ^ e := Nat.pow_le_pow_right (by decide) he
      _ ≤ base.natAbs ^ e := Nat.pow_le_pow_left hb e
      _ = (base ^ e).natAbs := (Int.natAbs_pow base e).symm
  have hmin : Int32.minValue.toInt = -2147483648 := rfl
  have hmax : Int32.maxValue.toInt = 2147483647 := rfl
  rw [int32?_eq_none_iff, hmin, hmax]
  omega

theorem powNat?_eq (base : Int) (e : Nat) : powNat? base e = int32? (base ^ e) := by
  unfold powNat?
  by_cases hb : base.natAbs ≤ 1
  · rw [if_pos hb]
    by_cases he : e = 0
    · rw [if_pos he, he]
      rfl
    · rw [if_neg he, ← pow_of_natAbs_le_one hb he]
      rfl
  · rw [if_neg hb]
    by_cases he : e ≤ 31
    · rw [if_pos he]
      rfl
    · rw [if_neg he, int32?_pow_eq_none (by omega) (by omega)]

end IntArithmetic

/-! ## Operators -/

namespace ExactInteger

open Ty

/-- A checked result is the exact one, if that has 32 bits. -/
theorem map_checked_int32? (op : Op) (n : Int) :
    (checked (t := .int) op (int32? n)).map Int32.toInt = bounded op n := by
  have hmin : Int32.minValue.toInt = -2147483648 := rfl
  have hmax : Int32.maxValue.toInt = 2147483647 := rfl
  unfold bounded
  cases h : int32? n with
  | none =>
    have hn := int32?_eq_none_iff.mp h
    rw [hmin, hmax] at hn
    rw [if_neg (by omega)]
    rfl
  | some i =>
    obtain rfl := int32?_eq_some_iff.mp h
    have hlo := i.minValue_le_toInt
    have hhi := i.toInt_le
    rw [hmin] at hlo
    rw [hmax] at hhi
    rw [if_pos ⟨hlo, hhi⟩]
    rfl

theorem unary?_spec {op : UnaryOp} {f : Int → Outcome Int} (h : unary? op = some f) (v : Int32) :
    f v.toInt = (applyUnary .int op v).map Int32.toInt := by
  cases op with
  | negate =>
    obtain rfl := Option.some.inj h
    exact (map_checked_int32? _ _).symm
  | abs =>
    obtain rfl := Option.some.inj h
    show bounded _ |v.toInt| = _
    rw [Int.abs_eq_natAbs]
    exact (map_checked_int32? _ _).symm
  | logarithm => cases h
  | sine => cases h
  | cosine => cases h

theorem less_int_iff {v w : Int32} : less .int v w = true ↔ v.toInt < w.toInt :=
  decide_eq_true_iff.trans Int32.lt_iff_toInt_lt

theorem toInt_minimum (v w : Int32) : (minimum .int v w).toInt = min v.toInt w.toInt := by
  unfold minimum
  by_cases h : less .int w v = true
  · rw [if_pos h, min_eq_right (less_int_iff.mp h).le]
  · rw [if_neg h, min_eq_left (not_lt.mp (mt less_int_iff.mpr h))]

theorem toInt_maximum (v w : Int32) : (maximum .int v w).toInt = max v.toInt w.toInt := by
  unfold maximum
  by_cases h : less .int v w = true
  · rw [if_pos h, max_eq_right (less_int_iff.mp h).le]
  · rw [if_neg h, max_eq_left (not_lt.mp (mt less_int_iff.mpr h))]

theorem map_divide (seed : UInt64) (v w : Int32) :
    (applyBinary seed .int .divide v w).map Int32.toInt
      = if w.toInt = 0 then .error (.arithmetic .divisionByZero)
        else bounded (.binary .divide) (v.toInt.tdiv w.toInt) := by
  show (if (w.toInt == 0) = true then _ else _ : Outcome Int32).map Int32.toInt = _
  by_cases hw : w.toInt = 0
  · rw [if_pos (beq_iff_eq.mpr hw), if_pos hw]
    rfl
  · rw [if_neg (mt beq_iff_eq.mp hw), if_neg hw]
    exact map_checked_int32? _ _

theorem map_exponentiate (seed : UInt64) (v : Int32) {w : Int32} (hw : 0 ≤ w.toInt) :
    (applyBinary seed .int .exponentiate v w).map Int32.toInt
      = bounded (.binary .exponentiate) (v.toInt ^ w.toInt.toNat) := by
  have e : IntArithmetic.pow? v w = int32? (v.toInt ^ w.toInt.toNat) := by
    rw [IntArithmetic.pow?, if_pos hw, IntArithmetic.powNat?_eq]
  show (checked (t := .int) _ (IntArithmetic.pow? v w)).map Int32.toInt = _
  rw [e]
  exact map_checked_int32? _ _

theorem binary?_spec {op : BinaryOp} {f : Int → Int → Outcome Int} (h : binary? op = some f) (seed : UInt64)
    (v w : Int32) (hw : op = .exponentiate → 0 ≤ w.toInt) :
    f v.toInt w.toInt = (applyBinary seed .int op v w).map Int32.toInt := by
  cases op with
  | plus =>
    obtain rfl := Option.some.inj h
    exact (map_checked_int32? _ _).symm
  | minus =>
    obtain rfl := Option.some.inj h
    exact (map_checked_int32? _ _).symm
  | times =>
    obtain rfl := Option.some.inj h
    exact (map_checked_int32? _ _).symm
  | divide =>
    obtain rfl := Option.some.inj h
    exact (map_divide seed v w).symm
  | exponentiate =>
    obtain rfl := Option.some.inj h
    exact (map_exponentiate seed v (hw rfl)).symm
  | minimum =>
    obtain rfl := Option.some.inj h
    exact congrArg Except.ok (toInt_minimum v w).symm
  | maximum =>
    obtain rfl := Option.some.inj h
    exact congrArg Except.ok (toInt_maximum v w).symm
  | randomUniform => cases h

end ExactInteger

/-! ## Trees -/

namespace Node

open ExactInteger

variable {H : Type} [HostCondition H] {c : Context}

theorem evalExact_unary {op : UnaryOp} {operand : Node H .int}
    (ih : operand.evalExact c = (operand.eval c).map Int32.toInt) :
    (unary op operand).evalExact c = ((unary op operand).eval c).map Int32.toInt := by
  cases hf : unary? op with
  | none => simp only [evalExact, hf]
  | some f =>
    simp only [evalExact, hf, ih, eval]
    cases operand.eval c with
    | error e => rfl
    | ok v => exact unary?_spec hf v

theorem evalExact_binary {op : BinaryOp} {lhs rhs : Node H .int} (h : (binary op lhs rhs).ExponentsNonneg c)
    (ihl : lhs.evalExact c = (lhs.eval c).map Int32.toInt)
    (ihr : rhs.ExponentsNonneg c → rhs.evalExact c = (rhs.eval c).map Int32.toInt) :
    (binary op lhs rhs).evalExact c = ((binary op lhs rhs).eval c).map Int32.toInt := by
  cases hf : binary? op with
  | none => simp only [evalExact, hf]
  | some f =>
    simp only [evalExact, hf, ihl, eval]
    cases hl : lhs.eval c with
    | error e => rfl
    | ok v =>
      obtain ⟨hr, hw⟩ := h.2 v hl
      rw [ihr hr]
      cases hr' : rhs.eval c with
      | error e => rfl
      | ok w => exact binary?_spec hf c.seed v w fun he => hw he w hr'

theorem evalExact_eq_map {t : Ty} (n : Node H t) (h : n.ExponentsNonneg c) : n.evalExact c = (n.eval c).map t.ideal := by
  induction n with
  | constant v => cases ‹Ty› <;> rfl
  | var x => cases ‹Ty› <;> rfl
  | statistic s => cases ‹Ty› <;> rfl
  | @staticCast s t operand _ => cases t <;> rfl
  | textCast operand _ => rfl
  | @unary t op operand ih =>
    cases t with
    | int => exact evalExact_unary (ih h)
    | _ => rfl
  | @binary t op lhs rhs ihl ihr =>
    cases t with
    | int => exact evalExact_binary h (ihl h.1) ihr
    | _ => rfl

/-- Evaluation of ints is exact: the same integer, or the same failure of the same operation. -/
theorem eval_eq_evalExact (n : Node H .int) (c : Context) (h : n.ExponentsNonneg c) :
    (n.eval c).map Int32.toInt = n.evalExact c :=
  (n.evalExact_eq_map h).symm

/-- The power is the least int, and one less is out of range. -/
def belowLeast : Node Empty .int :=
  .binary .minus (.binary .exponentiate (.constant (-2)) (.constant 31)) (.constant 1)

theorem eval_eq_evalExact_belowLeast :
    belowLeast.ExponentsNonneg .empty ∧
      belowLeast.eval .empty = .error (.arithmetic (.operatorOverflow (.binary .minus) .int)) ∧
      (belowLeast.eval .empty).map Int32.toInt = belowLeast.evalExact .empty := by
  have h : belowLeast.ExponentsNonneg .empty := by
    refine ⟨⟨trivial, fun v _ => ⟨trivial, fun _ w hw => ?_⟩⟩, fun v _ => ⟨trivial, nofun⟩⟩
    obtain rfl := Except.ok.inj hw
    decide
  exact ⟨h, rfl, belowLeast.eval_eq_evalExact .empty h⟩

end Node

end RuleExpr
