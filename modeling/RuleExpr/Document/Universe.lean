/-
  RuleExpr.Document.Universe — values and universes in JSON.

  A value is an object with one entry, from the name of its kind to its content. Kinds,
  members of enumerations, operators, reductions and references are their names.

  The document of a universe lists its objects, and maps its own properties; either may be
  missing. Decoding gives a `Body` first; a body becomes a universe only if no two of its
  objects share an id, and the id reported otherwise is the first one that repeats. That
  is settled before anything after the document is looked at.
-/

import RuleExpr.Document.StringTable
import RuleExpr.Universe

namespace RuleExpr

/-! ## Names and values -/

def Kind.ofName? (s : String) : Option Kind := Kind.all.find? (·.name == s)

def Ty.ofName? (s : String) : Option Ty := Ty.all.find? (·.name == s)

def Reference.ofName? (s : String) : Option Reference := Reference.all.find? (·.name == s)

def Kind.ofJson? (j : Json) : Option Kind := j.name? >>= Kind.ofName?

def Op.ofJson? (j : Json) : Option Op := j.name? >>= Op.ofName?

def Reduction.ofJson? (j : Json) : Option Reduction := j.name? >>= Reduction.ofName?

def Reference.ofJson? (j : Json) : Option Reference := j.name? >>= Reference.ofName?

def Member.ofJson? (e : Enumeration) (j : Json) : Option (Member e) := j.name? >>= Member.ofKeyword? e

namespace Ty

def ofJson? : (t : Ty) → Json → Option t.Carrier
  | int, j => j.int32?
  | double, j => j.float?
  | text, j => j.text?
  | enum e, j => Member.ofJson? e j

def toJson : (t : Ty) → t.Carrier → Json
  | int, n => .int n.toInt
  | double, x => .double x
  | text, s => .str s
  | enum _, m => .str m.keyword

end Ty

namespace Value

def ofJson? : Json → Option Value
  | .obj [(name, content)] => do
    match ← Kind.ofName? name with
    | .of t => return .of t (← t.ofJson? content)
    | .object => return .object (← content.int32?)
  | _ => none

def toJson (v : Value) : Json :=
  .obj [(v.kind.name, match v with
    | of t c => t.toJson c
    | object id => .int id.toInt)]

end Value

/-! ## Universes -/

namespace Object

def ofJson? (j : Json) : Option Object :=
  match j.record? ["id", "name", "object_type", "properties"] with
  | some [id, name, objectType, properties] => do
    return { id := ← Json.required? Json.int32? id
             name := ← Json.defaulted? Json.text? "" name
             objectType := ← Json.required? (Member.ofJson? .objectType) objectType
             properties := ← Json.defaulted? (Json.map? Value.ofJson?) ∅ properties }
  | _ => none

def toJson (o : Object) : Json :=
  .obj [("id", .int o.id.toInt), ("name", .str o.name), ("object_type", .str o.objectType.keyword),
    ("properties", Json.ofMap Value.toJson o.properties)]

end Object

namespace Universe

structure Body where
  objects : List Object
  properties : TextMap Value

namespace Body

def ofJson? (j : Json) : Option Body :=
  match j.record? ["objects", "properties"] with
  | some [objects, properties] => do
    return { objects := ← Json.defaulted? (Json.list? Object.ofJson?) [] objects
             properties := ← Json.defaulted? (Json.map? Value.ofJson?) ∅ properties }
  | _ => none

def add (u : Universe) (o : Object) : Except ConfigFault Universe :=
  match u.insert o with
  | (none, u) => .ok u
  | (some _, _) => .error (.duplicateObject o.id)

def toUniverse (b : Body) : Except ConfigFault Universe :=
  b.objects.foldlM add { properties := b.properties }

end Body

def parse (text : String) : Outcome Universe :=
  let unreadable := .error (.config (.unreadable .univ))
  match Json.read? text with
  | none => unreadable
  | some (j, rest) => match Body.ofJson? j with
    | none => unreadable
    | some body => match body.toUniverse with
      | .error fault => .error (.config (.refused .univ fault))
      | .ok u => if rest.isEmpty then .ok u else unreadable

def toJson (u : Universe) : Json :=
  .obj [("objects", .arr (u.toList.map Object.toJson)), ("properties", Json.ofMap Value.toJson u.properties)]

def print (u : Universe) : String := u.toJson.print

end Universe

end RuleExpr
