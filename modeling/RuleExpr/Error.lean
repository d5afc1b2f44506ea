/-
  RuleExpr.Error — why building or evaluating an expression fails, and the text of it.

  Seven classes of errors. Four of them have a closed list of causes of their own and one
  more cause, `stated`, whose text comes from outside the library (a condition that the
  host supplies, a caller that reports its own failure).
-/

import RuleExpr.Kind
import RuleExpr.Reference
import RuleExpr.Operator
import RuleExpr.Decimal

namespace RuleExpr

/-- A property path that leads nowhere. -/
inductive PropertyFault where
  | noSuchObject (segment : String) (holder linked : ObjectId)
  | notALink (segment : String) (holder : ObjectId) (found : Kind)
  | unknown (holder : ObjectId) (name : String)
  | unknownOfUniverse (name : String)
  | noCurrentValue
  | stated (text : String)
  deriving DecidableEq

/-- An operator, reduction or cast that the type does not define. -/
inductive OperationFault where
  | castFromText (text : String) (target : Ty)
  | castToText (found : Kind)
  | missingOperand (op : Op)
  | undefinedOperator (op : Op) (t : Ty)
  | undefinedReduction (r : Reduction) (t : Ty)
  | stated (text : String)
  deriving DecidableEq

inductive ArithmeticFault where
  | notFinite (x : Float)
  | notAnInt (x : Float)
  | countOverflow (n : Nat)
  | noSuchMember (code : Int32) (e : Enumeration)
  | operatorOverflow (op : Op) (t : Ty)
  | reductionOverflow (r : Reduction) (t : Ty)
  | divisionByZero
  | logarithmOf (x : Float)
  | stated (text : String)
  deriving DecidableEq

inductive Document where
  | univ
  | strings
  deriving DecidableEq, Repr

/-- A tree, path or document that cannot be built. -/
inductive ConfigFault where
  | emptyPath
  | emptySegment (path : String)
  | emptyPropertySegment (property : String)
  | propertyRequired (r : Reduction)
  | takesOneOperand (op : Op)
  | takesTwoOperands (op : Op)
  | duplicateObject (id : ObjectId)
  | unreadable (d : Document)
  /-- The document reads, but its content is refused. -/
  | refused (d : Document) (cause : ConfigFault)
  | stated (text : String)
  deriving DecidableEq

inductive Error where
  | unresolved (reference : Reference) (path : String)
  | property (fault : PropertyFault)
  | typeMismatch (expected found : Kind)
  | invalidOperation (fault : OperationFault)
  | arithmetic (fault : ArithmeticFault)
  | config (fault : ConfigFault)
  | other (text : String)
  deriving DecidableEq

abbrev Outcome := Except Error

def PropertyFault.message : PropertyFault → String
  | noSuchObject segment holder linked =>
    s!"object {linked} linked by `{segment}` on object {holder} does not exist"
  | notALink segment holder found => s!"`{segment}` on object {holder} is a {found.label}, not an object link"
  | unknown holder name => s!"object {holder} has no property `{name}`"
  | unknownOfUniverse name => s!"unknown universe property `{name}`"
  | noCurrentValue => "no current value in scripting context"
  | stated text => text

def OperationFault.message : OperationFault → String
  | castFromText text target => s!"cannot cast text \"{text}\" to {target.label}"
  | castToText found => s!"static cast from {found.label} to string; use a string cast"
  | missingOperand op => s!"{op.name} is missing its second operand"
  | undefinedOperator op t => s!"{op.name} is not defined for {t.label}"
  | undefinedReduction r t => s!"{r.keyword} statistic is not defined for {t.label}"
  | stated text => text

def ArithmeticFault.message : ArithmeticFault → String
  | notFinite x => s!"{Layout.plain.write x} is not a finite number"
  | notAnInt x => s!"{Layout.plain.write x} does not fit in an int"
  | countOverflow n => s!"count {n} overflows int"
  | noSuchMember code e => s!"{code} is not a valid {e.label}"
  | operatorOverflow op t => s!"{op.name} overflows {t.label}"
  | reductionOverflow r t => s!"{r.keyword} statistic overflows {t.label}"
  | divisionByZero => "division by zero"
  | logarithmOf x => s!"logarithm of non-positive value {Layout.plain.write x}"
  | stated text => text

def Document.label : Document → String
  | univ => "universe json"
  | strings => "string table json"

def configPreamble : String := "configuration error: "

def ConfigFault.message : ConfigFault → String
  | emptyPath => "variable path is empty"
  | emptySegment path => s!"variable path `{path}` has an empty segment"
  | emptyPropertySegment property => s!"statistic property `{property}` has an empty segment"
  | propertyRequired r => s!"{r.keyword} statistic needs a property"
  | takesOneOperand op => s!"{op.name} takes one operand"
  | takesTwoOperands op => s!"{op.name} takes two operands"
  | duplicateObject id => s!"duplicate object id {id}"
  | unreadable d => d.label
  | refused d cause => d.label ++ ": " ++ configPreamble ++ cause.message
  | stated text => text

def Error.message : Error → String
  | unresolved reference path =>
    s!"reference error: no {reference.label} object in scripting context for `{path}`"
  | property fault => "property error: " ++ fault.message
  | typeMismatch expected found => s!"type error: expected {expected.label}, found {found.label}"
  | invalidOperation fault => "invalid operation error: " ++ fault.message
  | arithmetic fault => "arithmetic error: " ++ fault.message
  | config fault => configPreamble ++ fault.message
  | other text => text

end RuleExpr
