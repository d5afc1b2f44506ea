/-
  RuleExpr.Node.Text — script text and localized text.

  Conditions and statistics have a canonical script text and a localized one. The two texts
  of an expression have one structure (`Node.render`) and differ in their leaves only, which
  a `Wording` gives. Casts leave no trace. Operators between operands have the usual
  precedence and associate to the left, except that every such operator under `^` is
  bracketed. Brackets are also put around negations, and around any operand whose text
  begins with a minus sign.
-/

import RuleExpr.Node.Basic

namespace RuleExpr

/-! ## Conditions -/

namespace Condition

variable {H : Type} [HostCondition H]

def idList (ids : List ObjectId) : String := " ".intercalate (ids.map toString)

mutual

/-- Canonical script text. -/
def script : Condition H → String
  | all => "All"
  | objectType m => m.keyword
  | withinIds ids => "Object id = [" ++ idList ids ++ "]"
  | hasProperty name => "HasProperty name = \"" ++ name ++ "\""
  | source => "Source"
  | and operands => "And [ " ++ " ".intercalate (scripts operands) ++ " ]"
  | host h => HostCondition.script h

def scripts : List (Condition H) → List String
  | [] => []
  | first :: rest => script first :: scripts rest

end

@[simp] theorem script_all : (all : Condition H).script = "All" := rfl

@[simp] theorem script_objectType (m : Member .objectType) : (objectType m : Condition H).script = m.keyword := rfl

@[simp] theorem script_withinIds (ids : List ObjectId) :
    (withinIds ids : Condition H).script = "Object id = [" ++ idList ids ++ "]" := rfl

@[simp] theorem script_hasProperty (name : String) :
    (hasProperty name : Condition H).script = "HasProperty name = \"" ++ name ++ "\"" := rfl

@[simp] theorem script_source : (source : Condition H).script = "Source" := rfl

@[simp] theorem script_and (ks : List (Condition H)) :
    (and ks).script = "And [ " ++ " ".intercalate (scripts ks) ++ " ]" := rfl

/-- The template under `key` with one argument, or the argument where there is none. -/
def phrase (strings : StringTable) (key argument : String) : String :=
  (strings.format key [argument]).getD argument

mutual

/-- Localized text. -/
def describe (strings : StringTable) : Condition H → String
  | all => strings.userString "DESC_ALL"
  | objectType m => phrase strings "DESC_OBJECT_TYPE" (strings.userString m.key)
  | withinIds ids => phrase strings "DESC_OBJECT_ID" (idList ids)
  | hasProperty name => phrase strings "DESC_HAS_PROPERTY" (strings.propertyName name)
  | source => strings.userString "DESC_SOURCE"
  | and operands =>
    (" " ++ strings.userString "DESC_AND" ++ " ").intercalate (descriptions strings operands)
  | host h => HostCondition.describe h strings

def descriptions (strings : StringTable) : List (Condition H) → List String
  | [] => []
  | first :: rest => describe strings first :: descriptions strings rest

end

end Condition

/-! ## Statistics -/

namespace Statistic

variable {H : Type} [HostCondition H]

/-- Canonical script text. -/
def script (s : Statistic H) : String :=
  "Statistic " ++ s.reduction.keyword
    ++ (if s.reduction.needsValues then " value = " ++ Text.join s.property else "")
    ++ " condition = " ++ s.condition.script

/-- Localized text. -/
def describe (strings : StringTable) (s : Statistic H) : String :=
  let parts :=
    [strings.userString s.reduction.key,
     if s.reduction.needsValues then s.path.describe strings else "",
     s.condition.describe strings]
  (strings.format "DESC_STATISTIC" parts).getD (" ".intercalate (parts.filter (· ≠ "")))

end Statistic

/-! ## Expressions -/

/-- The texts of the leaves. -/
structure Wording (H : Type) where
  constant : (t : Ty) → t.Carrier → String
  name : Variable → String
  statistic : Statistic H → String

/-- Localized text of a constant. -/
def Ty.describe (strings : StringTable) : (t : Ty) → t.Carrier → String
  | int, n => toString n
  | double, x => Layout.thousandths x
  | text, s => strings.userString s
  | enum _, m => strings.userString m.key

namespace Wording

variable {H : Type} [HostCondition H]

def script : Wording H := ⟨Ty.literal, Variable.dotted, Statistic.script⟩

def localized (strings : StringTable) : Wording H :=
  ⟨Ty.describe strings, Variable.describe strings, Statistic.describe strings⟩

end Wording

inductive Side where
  | left
  | right
  deriving DecidableEq, Repr

namespace Op

/-- Written between its operands. -/
def isBetween : Op → Bool
  | unary _ => false
  | binary op => match op.form with
    | .between _ _ => true
    | .call _ => false

/-- Whether the operand of a negation is bracketed for its operator. -/
def wrappedByNegation (child : Op) : Bool := child.isBetween || child = .unary .negate

/-- Whether an operand with this operator is bracketed under `parent`. -/
def wrappedBy (parent : BinaryOp) (side : Side) : Op → Bool
  | unary op => op = .negate
  | binary child => match parent.form, child.form with
    | .between _ p, .between _ q => parent = .exponentiate || q < p || (q = p && side = .right)
    | _, _ => false

end Op

def bracketed (s : String) : String := "(" ++ s ++ ")"

def startsWithMinus (s : String) : Bool := s.toList.head? == some '-'

/-- An operand's text, in brackets where its operator or a minus sign asks for them. -/
def enclose (wrapped : Op → Bool) (top : Option Op) (s : String) : String :=
  if top.any wrapped || startsWithMinus s then bracketed s else s

theorem startsWithMinus_append {s : String} (hs : s.toList ≠ []) (t : String) :
    startsWithMinus (s ++ t) = startsWithMinus s := by
  obtain ⟨c, cs, e⟩ := List.exists_cons_of_ne_nil hs
  rw [startsWithMinus, startsWithMinus, String.toList_append, e]
  rfl

/-- A text may be empty; then what comes after it is seen first. -/
theorem startsWithMinus_append_right {t : String} (ht : startsWithMinus t = false) (s : String) :
    startsWithMinus (s ++ t) = startsWithMinus s := by
  by_cases hs : s.toList = []
  · rw [String.toList_eq_nil_iff.mp hs, String.empty_append, ht]
    rfl
  · exact startsWithMinus_append hs t

theorem startsWithMinus_bracketed (s : String) : startsWithMinus (bracketed s) = false := by
  rw [bracketed, String.append_assoc, startsWithMinus_append (by simp)]
  rfl

theorem startsWithMinus_call (f s : String) : startsWithMinus (f ++ bracketed s) = startsWithMinus f :=
  startsWithMinus_append_right (startsWithMinus_bracketed s) f

theorem startsWithMinus_between (s symbol t : String) :
    startsWithMinus (s ++ " " ++ symbol ++ " " ++ t) = startsWithMinus s := by
  rw [String.append_assoc, String.append_assoc, String.append_assoc]
  exact startsWithMinus_append_right (startsWithMinus_append (by simp) _) s

theorem startsWithMinus_enclose (wrapped : Op → Bool) (top : Option Op) (s : String) :
    startsWithMinus (enclose wrapped top s) = false := by
  unfold enclose
  split
  · exact startsWithMinus_bracketed s
  · next h => exact Bool.eq_false_iff.mpr fun h' => h (by rw [h', Bool.or_true])

namespace Node

variable {H : Type}

/-- The outermost operator of the text, seen through casts. -/
def topOp : {t : Ty} → Node H t → Option Op
  | _, staticCast operand => topOp operand
  | _, textCast operand => topOp operand
  | _, unary op _ => some (.unary op)
  | _, binary op _ _ => some (.binary op)
  | _, _ => none

def render (w : Wording H) : {t : Ty} → Node H t → String
  | t, constant v => w.constant t v
  | _, var x => w.name x
  | _, statistic s => w.statistic s
  | _, staticCast operand => render w operand
  | _, textCast operand => render w operand
  | _, unary .negate operand => "-" ++ enclose Op.wrappedByNegation operand.topOp (render w operand)
  | _, unary op operand => op.function ++ bracketed (render w operand)
  | _, binary op lhs rhs => match op.form with
    | .between symbol _ =>
      enclose (Op.wrappedBy op .left) lhs.topOp (render w lhs) ++ " " ++ symbol ++ " "
        ++ enclose (Op.wrappedBy op .right) rhs.topOp (render w rhs)
    | .call function => function ++ bracketed (render w lhs ++ ", " ++ render w rhs)

section Render

variable {t : Ty} (w : Wording H)

theorem render_negate (a : Node H t) :
    (unary .negate a).render w = "-" ++ enclose Op.wrappedByNegation a.topOp (a.render w) := rfl

theorem render_unary {op : UnaryOp} (hop : op ≠ .negate) (a : Node H t) :
    (unary op a).render w = op.function ++ bracketed (a.render w) := by
  cases op with
  | negate => exact absurd rfl hop
  | _ => rfl

theorem render_between {op : BinaryOp} {symbol : String} {p : Nat} (hop : op.form = .between symbol p)
    (a b : Node H t) :
    (binary op a b).render w = enclose (Op.wrappedBy op .left) a.topOp (a.render w) ++ " " ++ symbol ++ " "
      ++ enclose (Op.wrappedBy op .right) b.topOp (b.render w) := by
  simp only [render, hop]

theorem render_call {op : BinaryOp} {f : String} (hop : op.form = .call f) (a b : Node H t) :
    (binary op a b).render w = f ++ bracketed (a.render w ++ ", " ++ b.render w) := by
  simp only [render, hop]

end Render

variable [HostCondition H] {t : Ty}

/-- Canonical script text. -/
def script (n : Node H t) : String := n.render .script

/-- Localized text. -/
def describe (strings : StringTable) (n : Node H t) : String := n.render (.localized strings)

end Node

end RuleExpr
