/-
  RuleExpr.Universe — objects, the universe that they are in, and contexts over it.

  An object has an id, a type, a name and a map of named properties; besides the map it
  answers the built-in names `ID`, `Name` and `ObjectType`, which hide entries of the same
  names. A universe is a store of objects in ascending order of their ids, one per id,
  and a map of properties of its own, independent of the objects.
  - `object?_eq_some_iff`: looking up an id gives the object of the universe with that id.
  - `object?_withObject`: storing an object changes the lookup of its id, and no other.
  - `property?_setProperty`: setting a property changes the lookup of its name, and no
    other.

  Every segment of a property path but the last must name a link to an object of the
  universe; the last one may name any property. The empty path gives the id of the object
  that it starts from.

  A context is what an expression is evaluated against: a universe, an optional object in
  each of the four slots, an optional current value, and the seed of random draws. Entering
  a level of condition nesting puts the candidate into the local slot, and into the root
  slot if that is still empty.
-/

import RuleExpr.KeyOrdered
import RuleExpr.Value

namespace RuleExpr

structure Object where
  id : ObjectId
  objectType : Member .objectType
  name : String := ""
  properties : TextMap Value := ∅
  deriving BEq

namespace Object

def property? (o : Object) (name : String) : Option Value :=
  if name = "ID" then some (.int o.id)
  else if name = "Name" then some (.text o.name)
  else if name = "ObjectType" then some (.member o.objectType)
  else o.properties.get? name

end Object

structure Universe where
  objects : KeyOrdered Object.id := ∅
  properties : TextMap Value := ∅
  deriving BEq

namespace Universe

def empty : Universe := {}

/-- The objects, ascending by id. -/
def toList (u : Universe) : List Object := u.objects.items

def size (u : Universe) : Nat := u.objects.size

def object? (u : Universe) (id : ObjectId) : Option Object := u.objects.find? id

theorem object?_eq_some_iff {u : Universe} {id : ObjectId} {o : Object} :
    u.object? id = some o ↔ o ∈ u.toList ∧ o.id = id :=
  KeyOrdered.find?_eq_some_iff

theorem eq_of_id_eq {u : Universe} {o p : Object} (ho : o ∈ u.toList) (hp : p ∈ u.toList) (h : o.id = p.id) : o = p := by
  have e : u.object? p.id = some o := object?_eq_some_iff.mpr ⟨ho, h⟩
  have e' : u.object? p.id = some p := object?_eq_some_iff.mpr ⟨hp, rfl⟩
  exact Option.some.inj (e.symm.trans e')

theorem nodup_ids (u : Universe) : (u.toList.map Object.id).Nodup := u.objects.nodup_keys

/-- Also hands back the object that had the id before. -/
def insert (u : Universe) (o : Object) : Option Object × Universe :=
  (u.object? o.id, { u with objects := u.objects.insert o })

def withObject (u : Universe) (o : Object) : Universe := (u.insert o).2

theorem object?_withObject (u : Universe) (o : Object) (id : ObjectId) :
    (u.withObject o).object? id = if o.id = id then some o else u.object? id := by
  simp [object?, withObject, insert, KeyOrdered.find?_insert]

def property? (u : Universe) (name : String) : Option Value := u.properties.get? name

def setProperty (u : Universe) (name : String) (v : Value) : Universe :=
  { u with properties := u.properties.set name v }

theorem property?_setProperty (u : Universe) (name other : String) (v : Value) :
    (u.setProperty name v).property? other = if name = other then some v else u.property? other :=
  u.properties.get?_set name other v

end Universe

/-! ## Property paths -/

namespace Universe

/-- The object that a link property leads to. -/
def follow (u : Universe) (o : Object) (segment : String) : Outcome Object :=
  match o.property? segment with
  | some (.object id) => match u.object? id with
    | some linked => .ok linked
    | none => .error (.property (.noSuchObject segment o.id id))
  | some v => .error (.property (.notALink segment o.id v.kind))
  | none => .error (.property (.unknown o.id segment))

def resolve (u : Universe) (o : Object) : List String → Outcome Value
  | [] => .ok (.int o.id)
  | [last] => match o.property? last with
    | some v => .ok v
    | none => .error (.property (.unknown o.id last))
  | segment :: rest => match u.follow o segment with
    | .ok linked => u.resolve linked rest
    | .error e => .error e

end Universe

/-! ## Contexts -/

structure Context where
  univ : Universe
  source : Option Object := none
  effectTarget : Option Object := none
  rootCandidate : Option Object := none
  localCandidate : Option Object := none
  current : Option Value := none
  seed : UInt64 := 0

namespace Context

def empty : Context := { univ := .empty }

def forSource (u : Universe) (source : Object) : Context := { univ := u, source := some source }

def forTarget (u : Universe) (source : Option Object) (target : Object) : Context :=
  { univ := u, source, effectTarget := some target }

def forEffect (u : Universe) (source : Option Object) (target : Object) (current : Value) : Context :=
  { forTarget u source target with current := some current }

def nested (c : Context) (candidate : Object) : Context :=
  { c with rootCandidate := c.rootCandidate.or (some candidate), localCandidate := some candidate }

def withCurrent (c : Context) (v : Value) : Context := { c with current := some v }

def withSeed (c : Context) (seed : UInt64) : Context := { c with seed }

def slot (c : Context) : Slot → Option Object
  | .source => c.source
  | .effectTarget => c.effectTarget
  | .localCandidate => c.localCandidate
  | .rootCandidate => c.rootCandidate

def object? (c : Context) : Reference → Option Object
  | .nonObject => none
  | .slot s => c.slot s

end Context

end RuleExpr
