/-
  RuleExpr.Document.StringTable — typed content of JSON trees, and string tables in JSON.

  A record is an object in which each field occurs at most once and other entries are
  ignored, or the list of its fields in order, of which trailing ones may be missing. A
  name out of a closed list is a string, or an object whose one entry maps the name to
  null. A map is an object; of entries with one key the last counts, but all must read.
  A string table is one object of strings.
-/

import RuleExpr.Json.Reader
import RuleExpr.StringTable
import RuleExpr.Value

namespace RuleExpr

namespace Json

/-- The fields of a record by name, `none` where a field is missing. -/
def record? (names : List String) : Json → Option (List (Option Json))
  | obj entries =>
    if names.all fun n => (entries.filter (·.1 == n)).length ≤ 1 then some (names.map fun n => entries.lookup n) else none
  | arr items =>
    if items.length ≤ names.length then some ((List.range names.length).map (items[·]?)) else none
  | _ => none

def required? {α : Type} (read : Json → Option α) (field : Option Json) : Option α := field.bind read

def defaulted? {α : Type} (read : Json → Option α) (default : α) : Option Json → Option α
  | some j => read j
  | none => some default

def name? : Json → Option String
  | str s => some s
  | obj [(s, null)] => some s
  | _ => none

def text? : Json → Option String
  | str s => some s
  | _ => none

def int32? : Json → Option Int32
  | int n => RuleExpr.int32? n
  | _ => none

def float? : Json → Option Float
  | int n => some (Float.ofInt n)
  | double x => some x
  | _ => none

def list? {α : Type} (read : Json → Option α) : Json → Option (List α)
  | arr items => items.mapM read
  | _ => none

def map? {α : Type} (read : Json → Option α) : Json → Option (TextMap α)
  | obj entries => (entries.mapM fun e => (read e.2).map fun v => (e.1, v)).map KeyOrdered.ofList
  | _ => none

def ofMap {α : Type} (write : α → Json) (m : TextMap α) : Json :=
  obj (m.items.map fun e => (e.1, write e.2))

end Json

namespace StringTable

def parse (text : String) : Outcome StringTable :=
  match Json.parse? text >>= Json.map? Json.text? with
  | some entries => .ok ⟨entries⟩
  | none => .error (.config (.unreadable .strings))

def print (t : StringTable) : String := (Json.ofMap Json.str t.entries).print

end StringTable

end RuleExpr
