/-
  RuleExpr.Node.Independence — what the value of an expression does not depend on.

  Of the built-in conditions only the source depends on a slot. A variable depends on the
  slot that it refers to; so does `Value`, which counts as reading the effect target. A
  statistic depends on what its condition and the path of its property depend on, and never
  on the local candidate, which stands for the sampled object. All other nodes depend on
  what their operands depend on.
-/

import RuleExpr.Node.Basic

namespace RuleExpr

namespace Condition

variable {H : Type} [HostCondition H]

mutual

def independence : Condition H → ConditionIndependence
  | all | objectType _ | withinIds _ | hasProperty _ => .full
  | source => { rootCandidate := true, effectTarget := true }
  | and operands => independenceOfAll operands
  | host h => HostCondition.independence h

def independenceOfAll : List (Condition H) → ConditionIndependence
  | [] => .full
  | first :: rest => (independence first).and (independenceOfAll rest)

end

end Condition

/-- Slots whose object makes no difference. -/
structure Independence where
  rootCandidate : Bool
  localCandidate : Bool
  effectTarget : Bool
  source : Bool
  deriving DecidableEq, Repr

namespace Independence

def full : Independence := ⟨true, true, true, true⟩

/-- Of what reads exactly the slot referred to. -/
def ofReference (r : Reference) : Independence :=
  ⟨r ≠ .slot .rootCandidate, r ≠ .slot .localCandidate, r ≠ .slot .effectTarget, r ≠ .slot .source⟩

def and (a b : Independence) : Independence :=
  ⟨a.rootCandidate && b.rootCandidate, a.localCandidate && b.localCandidate,
   a.effectTarget && b.effectTarget, a.source && b.source⟩

def of (i : Independence) : Slot → Bool
  | .source => i.source
  | .effectTarget => i.effectTarget
  | .localCandidate => i.localCandidate
  | .rootCandidate => i.rootCandidate

end Independence

namespace Node

variable {H : Type} [HostCondition H]

def independence : {t : Ty} → Node H t → Independence
  | _, constant _ => .full
  | _, var x => .ofReference x.reference
  | _, statistic s =>
    let p := Independence.ofReference s.path.reference
    let i := s.condition.independence
    ⟨p.rootCandidate && i.rootCandidate, true, p.effectTarget && i.effectTarget, p.source && i.source⟩
  | _, staticCast operand => independence operand
  | _, textCast operand => independence operand
  | _, unary _ operand => independence operand
  | _, binary _ lhs rhs => (independence lhs).and (independence rhs)

/-- Built from constants by operators alone, none of them a random draw. -/
def isConstant : {t : Ty} → Node H t → Bool
  | _, constant _ => true
  | _, unary _ operand => isConstant operand
  | _, binary op lhs rhs => op ≠ .randomUniform && isConstant lhs && isConstant rhs
  | _, _ => false

end Node

end RuleExpr
