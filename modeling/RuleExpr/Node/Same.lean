/-
  RuleExpr.Node.Same — structural equality of conditions, statistics and expressions.

  Built-in conditions are equal when they are built alike (`Condition.same_iff`); conditions
  of the host answer for themselves. Expressions are equal when they are built alike from
  equal leaves and have the same result type throughout. Constants compare as values do, so
  an expression with a NaN in it differs from itself.
-/

import RuleExpr.Node.Basic

namespace RuleExpr

namespace Condition

variable {H : Type} [HostCondition H]

mutual

def same : Condition H → Condition H → Bool
  | all, all => true
  | objectType m, objectType n => m == n
  | withinIds ids, withinIds js => ids == js
  | hasProperty a, hasProperty b => a == b
  | source, source => true
  | and xs, and ys => sameAll xs ys
  | host g, host h => HostCondition.same g h
  | _, _ => false

def sameAll : List (Condition H) → List (Condition H) → Bool
  | [], [] => true
  | x :: xs, y :: ys => same x y && sameAll xs ys
  | _, _ => false

end

mutual

theorem same_iff : (x y : BuiltinCondition) → (x.same y = true ↔ x = y)
  | all, y | source, y => by cases y <;> simp [same]
  | objectType m, y | withinIds ids, y | hasProperty n, y => by cases y <;> simp [same]
  | and xs, y => by
    cases y with
    | and ys => simpa [same] using sameAll_iff xs ys
    | _ => simp [same]
  | host h, _ => h.elim

theorem sameAll_iff : (xs ys : List BuiltinCondition) → (sameAll xs ys = true ↔ xs = ys)
  | [], ys => by cases ys <;> simp [sameAll]
  | x :: xs, [] => by simp [sameAll]
  | x :: xs, y :: ys => by simp [sameAll, same_iff x y, sameAll_iff xs ys]

end

end Condition

namespace Statistic

def same {H : Type} [HostCondition H] (a b : Statistic H) : Bool :=
  a.reduction == b.reduction && a.property == b.property && a.condition.same b.condition

end Statistic

namespace Node

variable {H : Type} [HostCondition H]

def same : {s t : Ty} → Node H s → Node H t → Bool
  | s, t, constant v, constant w => Value.of s v == Value.of t w
  | s, t, var x, var y => s == t && x == y
  | s, t, statistic a, statistic b => s == t && a.same b
  | s, t, staticCast a, staticCast b => s == t && same a b
  | _, _, textCast a, textCast b => same a b
  | _, _, unary op a, unary op' b => op == op' && same a b
  | _, _, binary op a b, binary op' a' b' => op == op' && same a a' && same b b'
  | _, _, _, _ => false

end Node

end RuleExpr
