/-
  RuleExpr.Kind — the types that expressions compute and the kinds that properties hold.

  A result type is int (32-bit), double (IEEE-754 binary64), text, or one of the five
  closed enumerations; `Ty.Carrier` gives its values. A property can also hold a link to
  an object, so a `Kind` is a result type or the kind of links. A link is the identifier
  of the object that it names; identifiers are 32-bit integers and order as such.

  An enumeration is a list of rows, each a script keyword with the string-table key of
  its localized name. The first row of every enumeration marks an invalid value; the
  others are its members in declaration order. A `Member` is a position in that list,
  so the order of members is the order of rows, the invalid mark sorts first, and the
  integer code of a member is its position less one (the invalid mark has code -1).

  - `ofCode?` and `code`, `ofKeyword?` and `keyword` are inverse to each other; the
    second pair because no keyword occurs twice in an enumeration (`keywords_nodup`).
-/

namespace RuleExpr

/-! ## Enumerations -/

inductive Enumeration where
  | planetSize
  | planetType
  | planetEnvironment
  | objectType
  | starType
  deriving DecidableEq, Repr

namespace Enumeration

structure Row where
  keyword : String
  key : String
  deriving DecidableEq, Repr

def invalid : Row := ⟨"Invalid", "INVALID"⟩

/-- The members, in declaration order. -/
def members : Enumeration → List Row
  | planetSize =>
    [⟨"NoWorld", "SZ_NOWORLD"⟩, ⟨"Tiny", "SZ_TINY"⟩, ⟨"Small", "SZ_SMALL"⟩, ⟨"Medium", "SZ_MEDIUM"⟩,
     ⟨"Large", "SZ_LARGE"⟩, ⟨"Huge", "SZ_HUGE"⟩, ⟨"Asteroids", "SZ_ASTEROIDS"⟩, ⟨"GasGiant", "SZ_GASGIANT"⟩]
  | planetType =>
    [⟨"Swamp", "PT_SWAMP"⟩, ⟨"Toxic", "PT_TOXIC"⟩, ⟨"Inferno", "PT_INFERNO"⟩, ⟨"Radiated", "PT_RADIATED"⟩,
     ⟨"Barren", "PT_BARREN"⟩, ⟨"Tundra", "PT_TUNDRA"⟩, ⟨"Desert", "PT_DESERT"⟩, ⟨"Terran", "PT_TERRAN"⟩,
     ⟨"Ocean", "PT_OCEAN"⟩, ⟨"Asteroids", "PT_ASTEROIDS"⟩, ⟨"GasGiant", "PT_GASGIANT"⟩]
  | planetEnvironment =>
    [⟨"Uninhabitable", "PE_UNINHABITABLE"⟩, ⟨"Hostile", "PE_HOSTILE"⟩, ⟨"Poor", "PE_POOR"⟩,
     ⟨"Adequate", "PE_ADEQUATE"⟩, ⟨"Good", "PE_GOOD"⟩]
  | objectType =>
    [⟨"Building", "OBJ_BUILDING"⟩, ⟨"Ship", "OBJ_SHIP"⟩, ⟨"Fleet", "OBJ_FLEET"⟩, ⟨"Planet", "OBJ_PLANET"⟩,
     ⟨"PopCenter", "OBJ_POP_CENTER"⟩, ⟨"ProdCenter", "OBJ_PROD_CENTER"⟩, ⟨"System", "OBJ_SYSTEM"⟩,
     ⟨"Field", "OBJ_FIELD"⟩]
  | starType =>
    [⟨"Blue", "STAR_BLUE"⟩, ⟨"White", "STAR_WHITE"⟩, ⟨"Yellow", "STAR_YELLOW"⟩, ⟨"Orange", "STAR_ORANGE"⟩,
     ⟨"Red", "STAR_RED"⟩, ⟨"Neutron", "STAR_NEUTRON"⟩, ⟨"BlackHole", "STAR_BLACK"⟩, ⟨"NoStar", "STAR_NONE"⟩]

def rows (e : Enumeration) : List Row := invalid :: e.members

/-- Spelling of the enumeration in documents. -/
def name : Enumeration → String
  | planetSize => "PlanetSize"
  | planetType => "PlanetType"
  | planetEnvironment => "PlanetEnvironment"
  | objectType => "ObjectType"
  | starType => "StarType"

def label : Enumeration → String
  | planetSize => "planet size"
  | planetType => "planet type"
  | planetEnvironment => "planet environment"
  | objectType => "object type"
  | starType => "star type"

def all : List Enumeration := [planetSize, planetType, planetEnvironment, objectType, starType]

theorem keywords_nodup (e : Enumeration) : (e.rows.map Row.keyword).Nodup := by
  cases e <;> decide

end Enumeration

/-- A row of the enumeration; rank 0 is the invalid mark. -/
structure Member (e : Enumeration) where
  rank : Fin e.rows.length
  deriving DecidableEq, Repr

namespace Member

variable {e : Enumeration}

def invalid (e : Enumeration) : Member e := ⟨⟨0, Nat.succ_pos _⟩⟩

def row (m : Member e) : Enumeration.Row := e.rows[m.rank]

def keyword (m : Member e) : String := m.row.keyword

def key (m : Member e) : String := m.row.key

def code (m : Member e) : Int32 := Int32.ofInt ((m.rank.val : Int) - 1)

/-- Every row, the invalid mark first. -/
def every (e : Enumeration) : List (Member e) := (List.finRange e.rows.length).map Member.mk

/-- The valid members. -/
def all (e : Enumeration) : List (Member e) := (every e).tail

def ofCode? (e : Enumeration) (c : Int32) : Option (Member e) := (every e).find? (·.code == c)

def ofKeyword? (e : Enumeration) (s : String) : Option (Member e) := (every e).find? (·.keyword == s)

theorem ofCode?_code (m : Member e) : ofCode? e m.code = some m := by
  obtain ⟨r⟩ := m; revert r; cases e <;> decide

theorem ofKeyword?_keyword (m : Member e) : ofKeyword? e m.keyword = some m := by
  obtain ⟨r⟩ := m; revert r; cases e <;> decide

end Member

/-! ## Result types and kinds -/

abbrev ObjectId := Int32

inductive Ty where
  | int
  | double
  | text
  | enum (e : Enumeration)
  deriving DecidableEq, Repr

namespace Ty

abbrev Carrier : Ty → Type
  | int => Int32
  | double => Float
  | text => String
  | enum e => Member e

/-- Spelling of the type in documents. -/
def name : Ty → String
  | int => "Int"
  | double => "Double"
  | text => "Text"
  | enum e => e.name

def label : Ty → String
  | int => "int"
  | double => "double"
  | text => "string"
  | enum e => e.label

def all : List Ty := [int, double, text] ++ Enumeration.all.map enum

end Ty

inductive Kind where
  | of (t : Ty)
  | object
  deriving DecidableEq, Repr

namespace Kind

def name : Kind → String
  | of t => t.name
  | object => "Object"

def label : Kind → String
  | of t => t.label
  | object => "object"

def all : List Kind := Ty.all.map of ++ [object]

end Kind

end RuleExpr
