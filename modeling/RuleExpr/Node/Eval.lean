/-
  RuleExpr.Node.Eval — the value of an expression in a context.

  Built-in conditions select each object at most once and cannot fail. An intersection has
  the order and the repetitions of its first operand; every further operand is evaluated
  in turn, whatever is left by then, and filters by id. The empty intersection selects
  nothing.

  Of objects selected more than once the first counts in a statistic. The property is
  looked up for each of them in the context nested for the object, so its path is followed
  from the object; only a property `Value` is not found there, because the lookup takes this
  path for the current value (`Statistic.lookup_eq`). Reductions that go by the number of
  objects read no property.

  Operands are evaluated from left to right and the first failure is the outcome.
-/

import RuleExpr.Node.Basic
import RuleExpr.Operation

namespace RuleExpr

/-! ## What conditions select -/

/-- The first object of each id. -/
def distinct (os : List Object) : List Object := go [] os
where
  go (seen : List ObjectId) : List Object → List Object
    | [] => []
    | o :: rest => if seen.contains o.id then go seen rest else o :: go (o.id :: seen) rest

namespace Condition

variable {H : Type} [HostCondition H]

/-- Objects of `os` that share their id with one of `others`. -/
def keep (os others : List Object) : List Object := os.filter fun o => others.any fun p => p.id == o.id

mutual

def select (c : Context) : Condition H → Outcome (List Object)
  | all => .ok c.univ.toList
  | objectType m => .ok (c.univ.toList.filter (·.objectType == m))
  | withinIds ids => .ok (distinct (ids.filterMap c.univ.object?))
  | hasProperty name => .ok (c.univ.toList.filter (·.properties.contains name))
  | source => .ok c.source.toList
  | and [] => .ok []
  | and (first :: rest) => match select c first with
    | .ok found => narrow c found rest
    | .error e => .error e
  | host h => HostCondition.select h c

/-- The objects `found`, less what one of the conditions does not select. -/
def narrow (c : Context) (found : List Object) : List (Condition H) → Outcome (List Object)
  | [] => .ok found
  | next :: rest => match select c next with
    | .ok others => narrow c (keep found others) rest
    | .error e => .error e

end

theorem select_and_cons (c : Context) (first : Condition H) (rest : List (Condition H)) :
    (and (first :: rest)).select c = first.select c >>= fun found => narrow c found rest := by
  rw [select]
  cases select c first <;> rfl

theorem narrow_cons (c : Context) (found : List Object) (next : Condition H) (rest : List (Condition H)) :
    narrow c found (next :: rest) = next.select c >>= fun others => narrow c (keep found others) rest := by
  rw [narrow]
  cases select c next <;> rfl

end Condition

/-! ## What statistics reduce -/

namespace Statistic

variable {H : Type} [HostCondition H]

/-- The objects that count, in the order of the condition. -/
def sample (s : Statistic H) (c : Context) : Outcome (List Object) := (s.condition.select c).map distinct

/-- The property of a sampled object, which is the local candidate. -/
def lookup (property : List String) (c : Context) (o : Object) : Outcome Value :=
  (DottedPath.relative property).lookupAs (.slot .localCandidate) (c.nested o)

theorem lookup_eq (property : List String) (c : Context) (o : Object) :
    lookup property c o = if property = [valueSegment] then c.currentValue else c.univ.resolve o property := rfl

/-- The values of the property on the objects, if the reduction needs them. -/
def values (t : Ty) (s : Statistic H) (c : Context) (sampled : List Object) : Outcome (List t.Carrier) :=
  if s.reduction.needsValues then sampled.mapM fun o => lookup s.property c o >>= Value.readAs t
  else .ok []

/-- A reduction that the type does not define fails before the condition is looked at. -/
def eval (t : Ty) (s : Statistic H) (c : Context) : Outcome t.Carrier :=
  if t.supports s.reduction then do
    let sampled ← s.sample c
    let values ← s.values t c sampled
    t.reduce s.reduction values sampled.length
  else .error (.invalidOperation (.undefinedReduction s.reduction t))

end Statistic

/-! ## What expressions compute -/

namespace Node

variable {H : Type} [HostCondition H]

def eval (c : Context) : {t : Ty} → Node H t → Outcome t.Carrier
  | _, constant v => .ok v
  | t, var x => x.eval t c
  | t, statistic s => s.eval t c
  | t, @staticCast _ s _ operand => do
    let v ← eval c operand
    Value.castTo t (.of s v)
  | _, @textCast _ s operand => do
    let v ← eval c operand
    return s.plainText v
  | t, unary op operand => do
    let v ← eval c operand
    t.applyUnary op v
  | t, binary op lhs rhs => do
    let v ← eval c lhs
    let w ← eval c rhs
    t.applyBinary c.seed op v w

/-- Evaluated without objects, current value and seed. -/
def evalAlone {t : Ty} (n : Node H t) : Outcome t.Carrier := n.eval .empty

end Node

end RuleExpr
