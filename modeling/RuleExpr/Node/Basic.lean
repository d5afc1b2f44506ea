/-
  RuleExpr.Node.Basic — conditions, statistics and typed expression trees.

  Conditions select objects of a universe. Besides the built-in ones a tree can hold
  conditions of a type `H` that the host supplies; `HostCondition` lists what they must
  answer. Trees of built-in conditions only are those over `Empty`. A statistic reduces a
  property over the objects that a condition selects; reductions that go by the number of
  objects need no property.

  `Node H t` is an expression with values of type `t`. Operands of operators have the type
  of the result; only the two casts change the type. A static cast may have any result
  type, but a cast to text never succeeds; rendering an operand as text is the other cast.
-/

import RuleExpr.Variable

namespace RuleExpr

/-! ## Conditions -/

/-- Slots whose object makes no difference to what a condition selects. A flag is only set
    where that is certain. -/
structure ConditionIndependence where
  rootCandidate : Bool := false
  effectTarget : Bool := false
  source : Bool := false
  deriving DecidableEq, Repr

namespace ConditionIndependence

def full : ConditionIndependence := ⟨true, true, true⟩

def and (a b : ConditionIndependence) : ConditionIndependence :=
  ⟨a.rootCandidate && b.rootCandidate, a.effectTarget && b.effectTarget, a.source && b.source⟩

theorem full_and (i : ConditionIndependence) : full.and i = i := by
  simp only [full, and, Bool.true_and]

theorem and_full (i : ConditionIndependence) : i.and full = i := by
  simp only [full, and, Bool.and_true]

theorem and_assoc (i j k : ConditionIndependence) : (i.and j).and k = i.and (j.and k) := by
  simp only [and, Bool.and_assoc]

end ConditionIndependence

class HostCondition (H : Type) where
  select : H → Context → Outcome (List Object)
  independence : H → ConditionIndependence := fun _ => {}
  script : H → String
  describe : H → StringTable → String
  same : H → H → Bool

instance : HostCondition Empty where
  select := nofun
  script := nofun
  describe := nofun
  same := nofun

inductive Condition (H : Type) where
  /-- Every object. -/
  | all
  | objectType (m : Member .objectType)
  /-- The objects of the list, in its order; unknown ids are skipped. -/
  | withinIds (ids : List ObjectId)
  /-- Objects with an entry of that name in their property map. -/
  | hasProperty (name : String)
  /-- The source of the context, if there is one. -/
  | source
  /-- What the first operand selects, less the objects that another one does not. -/
  | and (operands : List (Condition H))
  | host (h : H)

abbrev BuiltinCondition := Condition Empty

/-! ## Statistics -/

structure Statistic (H : Type) where
  reduction : Reduction
  property : List String
  condition : Condition H
  segment_ne : ∀ s ∈ property, s ≠ ""
  property_ne_nil : reduction.needsValues → property ≠ []

namespace Statistic

variable {H : Type}

def propertyPath (property : String) : List String := if property = "" then [] else Text.split property

/-- A statistic over a dotted property. -/
def ofProperty (r : Reduction) (property : String) (condition : Condition H) : Outcome (Statistic H) :=
  if hs : ∀ s ∈ propertyPath property, s ≠ "" then
    if hn : r.needsValues → propertyPath property ≠ [] then .ok ⟨r, propertyPath property, condition, hs, hn⟩
    else .error (.config (.propertyRequired r))
  else .error (.config (.emptyPropertySegment property))

/-- The number of objects selected. -/
def count (condition : Condition H) : Statistic H := ⟨.count, [], condition, nofun, nofun⟩

/-- The property, from an object selected. -/
def path (s : Statistic H) : DottedPath := .relative s.property

end Statistic

/-! ## Expressions -/

inductive Node (H : Type) : Ty → Type where
  | constant {t : Ty} (v : t.Carrier) : Node H t
  | var {t : Ty} (x : Variable) : Node H t
  | statistic {t : Ty} (s : Statistic H) : Node H t
  | staticCast {s t : Ty} (operand : Node H s) : Node H t
  | textCast {s : Ty} (operand : Node H s) : Node H .text
  | unary {t : Ty} (op : UnaryOp) (operand : Node H t) : Node H t
  | binary {t : Ty} (op : BinaryOp) (lhs rhs : Node H t) : Node H t

namespace Node

variable {H : Type} {t : Ty}

/-- The operator must take one operand. -/
def ofUnary (op : Op) (operand : Node H t) : Outcome (Node H t) :=
  match op with
  | .unary op => .ok (unary op operand)
  | .binary _ => .error (.config (.takesTwoOperands op))

/-- The operator must take two operands. -/
def ofBinary (op : Op) (lhs rhs : Node H t) : Outcome (Node H t) :=
  match op with
  | .unary _ => .error (.config (.takesOneOperand op))
  | .binary op => .ok (binary op lhs rhs)

/-- The variable of a dotted name. -/
def ofName (dotted : String) : Outcome (Node H t) := (Variable.parse dotted).map var

def ofStatistic (r : Reduction) (property : String) (condition : Condition H) : Outcome (Node H t) :=
  (Statistic.ofProperty r property condition).map statistic

end Node

end RuleExpr
