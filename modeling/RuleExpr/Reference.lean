/-
  RuleExpr.Reference — the object slots of a scripting context and how names select them.

  A context has four slots for objects: the source, the effect target, the candidate
  tested at the current level of condition nesting, and the candidate that started the
  nesting. A reference is one of the slots or no object at all; the first segment of a
  dotted name decides which (`Reference.ofSegment`).
-/

namespace RuleExpr

inductive Slot where
  | source
  | effectTarget
  | localCandidate
  | rootCandidate
  deriving DecidableEq, Repr

inductive Reference where
  | nonObject
  | slot (s : Slot)
  deriving DecidableEq, Repr

/-- The segment that, alone, names the context's current value. -/
def valueSegment : String := "Value"

namespace Slot

def name : Slot → String
  | source => "Source"
  | effectTarget => "EffectTarget"
  | localCandidate => "ConditionLocalCandidate"
  | rootCandidate => "ConditionRootCandidate"

def label : Slot → String
  | source => "source"
  | effectTarget => "effect target"
  | localCandidate => "local candidate"
  | rootCandidate => "root candidate"

/-- String-table key of the slot's localized name. -/
def key : Slot → String
  | source => "DESC_VAR_SOURCE"
  | effectTarget => "DESC_VAR_TARGET"
  | localCandidate => "DESC_VAR_LOCAL_CANDIDATE"
  | rootCandidate => "DESC_VAR_ROOT_CANDIDATE"

end Slot

namespace Reference

def name : Reference → String
  | nonObject => "NonObject"
  | slot s => s.name

def label : Reference → String
  | nonObject => "non-object"
  | slot s => s.label

def all : List Reference :=
  [nonObject, slot .source, slot .effectTarget, slot .localCandidate, slot .rootCandidate]

/-- Both `Target` and `Value` refer to the effect target; any other first segment than
    these names a property of the universe. -/
def ofSegment (s : String) : Reference :=
  if s = "Source" then slot .source
  else if s = "Target" ∨ s = valueSegment then slot .effectTarget
  else if s = "LocalCandidate" then slot .localCandidate
  else if s = "RootCandidate" then slot .rootCandidate
  else nonObject

end Reference

end RuleExpr
