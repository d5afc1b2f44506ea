/-
  RuleExpr.Variable — dotted names and what they read of a context.

  A name is a path of segments with dots between them. Splitting at dots gives at least one
  segment, and joining the segments again gives the name back (`join_split`).

  The first segment of a variable's name decides what the rest is looked up on: the object in
  one of the slots, or else the universe, which has properties by whole dotted names. The name
  `Value` alone reads the context's current value. The name of a slot alone reads the id of
  its object.

  The path of a property has no reference of its own and is looked up under that of an object
  at hand. Variables and properties are looked up by one rule (`DottedPath.lookupAs`). It
  takes `Value` alone for the current value before it looks at the reference, which leaves a
  property of this name out of reach of a path that is no variable.
-/

import RuleExpr.StringTable
import RuleExpr.Universe

namespace RuleExpr

namespace Text

def split (s : String) : List String := (s.toList.splitOn '.').map String.ofList

def join (segments : List String) : String := ".".intercalate segments

theorem split_ne_nil (s : String) : split s ≠ [] := by
  simp [split, List.splitOn_ne_nil]

theorem join_split (s : String) : join (split s) = s := by
  apply String.toList_injective
  simp [join, split, Function.comp_def, List.intercalate_splitOn]

end Text

/-- What a path that is the segment `Value` alone reads. -/
def Context.currentValue (c : Context) : Outcome Value :=
  match c.current with
  | some v => .ok v
  | none => .error (.property .noCurrentValue)

/-- The parts of a localized name, put together. -/
def StringTable.variablePhrase (strings : StringTable) (parts : List String) : String :=
  let key := "DESC_VALUE_REF_MULTIPART_VARIABLE" ++ toString (parts.length - 1)
  (strings.format key parts).getD (" ".intercalate parts)

/-! ## Paths -/

/-- Segments, and what the first of them refers to. -/
structure DottedPath where
  reference : Reference
  segments : List String

namespace DottedPath

/-- No segment refers to anything: the path leads on from an object at hand. -/
def relative (segments : List String) : DottedPath := ⟨.nonObject, segments⟩

def dotted (p : DottedPath) : String := Text.join p.segments

/-- The segments that are followed from an object. -/
def properties (p : DottedPath) : List String :=
  match p.reference with
  | .nonObject => p.segments
  | .slot _ => p.segments.tail

/-- Looked up as if the first segment referred to `reference`. -/
def lookupAs (p : DottedPath) (reference : Reference) (c : Context) : Outcome Value :=
  if p.segments = [valueSegment] then c.currentValue
  else match reference with
    | .nonObject => match c.univ.property? p.dotted with
      | some v => .ok v
      | none => .error (.property (.unknownOfUniverse p.dotted))
    | .slot s => match c.object? (.slot s) with
      | some o => c.univ.resolve o p.properties
      | none => .error (.unresolved (.slot s) p.dotted)

/-- Localized text. -/
def describe (strings : StringTable) (p : DottedPath) : String :=
  if p.segments = [valueSegment] then strings.userString "DESC_VAR_VALUE"
  else match p.segments with
    | [] => ""
    | first :: rest =>
      let first := match p.reference with
        | .nonObject => strings.propertyName first
        | .slot s => strings.userString s.key
      strings.variablePhrase (first :: rest.map strings.propertyName)

end DottedPath

/-! ## Variables -/

structure Variable where
  path : List String
  path_ne_nil : path ≠ []
  segment_ne : ∀ s ∈ path, s ≠ ""
  deriving DecidableEq

namespace Variable

def ofPath (path : List String) : Outcome Variable :=
  if h : path = [] then .error (.config .emptyPath)
  else if hs : ∀ s ∈ path, s ≠ "" then .ok ⟨path, h, hs⟩
  else .error (.config (.emptySegment (Text.join path)))

def parse (dotted : String) : Outcome Variable := ofPath (Text.split dotted)

/-- The variable that reads the current value. -/
def value : Variable := ⟨[valueSegment], by decide, by decide⟩

def head (x : Variable) : String := x.path.head x.path_ne_nil

def reference (x : Variable) : Reference := .ofSegment x.head

/-- The dotted name, which is also the script text. -/
def dotted (x : Variable) : String := Text.join x.path

def toPath (x : Variable) : DottedPath := ⟨x.reference, x.path⟩

def lookup (x : Variable) (c : Context) : Outcome Value := x.toPath.lookupAs x.reference c

def eval (t : Ty) (x : Variable) (c : Context) : Outcome t.Carrier := x.lookup c >>= Value.readAs t

/-- Localized text. -/
def describe (strings : StringTable) (x : Variable) : String := x.toPath.describe strings

end Variable

end RuleExpr
