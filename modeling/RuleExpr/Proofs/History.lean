/-
  RuleExpr.Proofs.History — a universe answers as what has happened to it says.

  A universe comes about by changes and by loading documents, each of which takes the place of all
  that was there. Its history is the plain list of what has been stored since the last document, the
  latest first, with nothing replaced and in no order but that of time. A universe recalls its history
  if every lookup gives what was stored last (`Recalls`): the empty one does, and every event keeps it
  so (`Recalls.after`), hence every run does (`recalls_of_run`). That the objects stand in ascending
  order, one of each id, with the id that they are looked up by, follows for every universe from how it
  is made; all of it together is `keyed_store`.
-/

import Mathlib.Data.List.Dedup
import RuleExpr.Proofs.Reloading

namespace RuleExpr.Universe

/-! ## Events and histories -/

inductive Event where
  | changed (change : Change)
  /-- A document took the place of the universe. -/
  | loaded (text : String)

def Event.apply (u : Universe) : Event → Outcome Universe
  | changed change => .ok (change.apply u)
  | loaded text => parse text

/-- From the empty universe on; every document has to load. -/
def run (events : List Event) : Outcome Universe := events.foldlM Event.apply empty

/-- What a text has in it, if it can be read so far. -/
def Body.ofText? (text : String) : Option Body := (Json.read? text).bind fun read => ofJson? read.1

/-- What has been stored since the last document, the latest first. -/
structure History where
  objects : List Object := []
  properties : List (String × Value) := []

namespace History

def ofBody (b : Body) : History := ⟨b.objects.reverse, b.properties.items⟩

def after (past : History) : Event → History
  | .changed (.insert o) => { past with objects := o :: past.objects }
  | .changed (.withObject o) => { past with objects := o :: past.objects }
  | .changed (.setProperty name v) => { past with properties := (name, v) :: past.properties }
  | .loaded text => (Body.ofText? text).elim past ofBody

def of (events : List Event) : History := events.foldl after {}

/-- The object that was stored last of those with the id. -/
def object? (past : History) (id : ObjectId) : Option Object := past.objects.find? (·.id == id)

def property? (past : History) (name : String) : Option Value := (past.properties.find? (·.1 == name)).map Prod.snd

def ids (past : History) : List ObjectId := past.objects.map Object.id

theorem mem_ids_iff {past : History} {id : ObjectId} : id ∈ past.ids ↔ ∃ o, past.object? id = some o := by
  simp only [ids, object?, List.mem_map, ← Option.isSome_iff_exists, List.find?_isSome, beq_iff_eq]

end History

/-! ## Lookups -/

/-- Every lookup gives what was stored last. -/
structure Recalls (u : Universe) (past : History) : Prop where
  object : ∀ id, u.object? id = past.object? id
  property : ∀ name, u.property? name = past.property? name

theorem recalls_empty : empty.Recalls {} := ⟨fun _ => rfl, fun _ => rfl⟩

theorem compare_beq_eq (a b : ObjectId) : (compare a b == .eq) = (a == b) := by
  rw [Bool.eq_iff_iff, beq_iff_eq, beq_iff_eq, Std.LawfulEqCmp.compare_eq_iff_eq]

theorem Recalls.withObject {u : Universe} {past : History} (h : u.Recalls past) (o : Object) :
    (u.withObject o).Recalls { past with objects := o :: past.objects } := by
  refine ⟨fun id => ?_, h.property⟩
  rw [object?_withObject]
  by_cases hid : o.id = id
  · simp [History.object?, hid]
  · simpa [History.object?, hid] using h.object id

theorem Recalls.setProperty {u : Universe} {past : History} (h : u.Recalls past) (name : String) (v : Value) :
    (u.setProperty name v).Recalls { past with properties := (name, v) :: past.properties } := by
  refine ⟨h.object, fun other => ?_⟩
  rw [property?_setProperty]
  by_cases hname : name = other
  · simp [History.property?, hname]
  · simpa [History.property?, hname] using h.property other

/-- In a body that makes up a universe no id repeats, so the order of its objects does not matter. -/
theorem recalls_ofBody {b : Body} {u : Universe} (h : b.toUniverse = .ok u) : u.Recalls (.ofBody b) := by
  have hnodup := Body.toUniverse_ok_iff.mp ⟨u, h⟩
  rw [Body.toUniverse_of_nodup hnodup] at h
  obtain rfl := Except.ok.inj h
  constructor
  · intro id
    show (KeyOrdered.ofList b.objects).find? id = _
    rw [KeyOrdered.ofList, KeyOrdered.find?_foldl_insert, KeyOrdered.find?_empty, Option.or_none]
    simp only [compare_beq_eq]
    rfl
  · intro name
    show (b.properties.find? name).map Prod.snd = _
    have hkey : ∀ e : String × Value, (compare e.1 name == .eq) = (e.1 == name) := by
      intro e
      rw [Bool.eq_iff_iff, beq_iff_eq, beq_iff_eq, Std.LawfulEqCmp.compare_eq_iff_eq]
    simp only [KeyOrdered.find?, hkey]
    rfl

theorem ofText?_of_parse {text : String} {u : Universe} (h : parse text = .ok u) :
    ∃ b, Body.ofText? text = some b ∧ b.toUniverse = .ok u := by
  unfold parse at h
  split at h
  · cases h
  · next j rest hread =>
    split at h
    · cases h
    · next b hb =>
      split at h
      · cases h
      · next u' hu =>
        split at h
        · obtain rfl := Except.ok.inj h
          exact ⟨b, by simp [Body.ofText?, hread, hb], hu⟩
        · cases h

/-! ## Runs -/

theorem Recalls.after {u u' : Universe} {past : History} (h : u.Recalls past) {event : Event}
    (he : event.apply u = .ok u') : u'.Recalls (past.after event) := by
  cases event with
  | changed change =>
    obtain rfl := Except.ok.inj he
    cases change with
    | insert o => exact h.withObject o
    | withObject o => exact h.withObject o
    | setProperty name v => exact h.setProperty name v
  | loaded text =>
    obtain ⟨b, htext, hu⟩ := ofText?_of_parse he
    simp only [History.after, htext]
    exact recalls_ofBody hu

theorem Recalls.foldlM {u u' : Universe} {past : History} (h : u.Recalls past) {events : List Event}
    (he : events.foldlM Event.apply u = .ok u') : u'.Recalls (events.foldl History.after past) := by
  induction events generalizing u past with
  | nil =>
    obtain rfl := Except.ok.inj he
    exact h
  | cons event events ih =>
    rw [List.foldlM_cons] at he
    cases hstep : event.apply u with
    | error e =>
      rw [hstep] at he
      cases he
    | ok next =>
      rw [hstep] at he
      exact ih (h.after hstep) he

theorem recalls_of_run {events : List Event} {u : Universe} (h : run events = .ok u) : u.Recalls (.of events) :=
  recalls_empty.foldlM h

/-! ## The objects -/

theorem ascending (u : Universe) : u.toList.Pairwise fun a b => a.id.toInt < b.id.toInt := by
  refine u.objects.sorted.imp fun hab => ?_
  exact Int32.lt_iff_toInt_lt.mp (Std.compare_eq_lt.mp hab)

theorem Recalls.size_eq {u : Universe} {past : History} (h : u.Recalls past) : u.size = past.ids.dedup.length := by
  have hmem : ∀ id, id ∈ u.toList.map Object.id ↔ id ∈ past.ids.dedup := by
    intro id
    rw [List.mem_dedup, History.mem_ids_iff, ← h.object id, List.mem_map]
    simp only [object?_eq_some_iff]
  have hperm := (List.perm_ext_iff_of_nodup u.nodup_ids past.ids.nodup_dedup).mpr hmem
  calc u.size = (u.toList.map Object.id).length := (List.length_map _).symm
    _ = past.ids.dedup.length := hperm.length_eq

/-- After any run the universe answers as its history does: objects by their ids, in ascending
    order, one of each id that has been stored since the last document, and properties by their names.
    Inserting hands back what the id was looked up as before, and neither objects nor properties are
    touched by changes of the other. -/
theorem keyed_store (events : List Event) (u : Universe) (h : run events = .ok u) :
    (∀ id, u.object? id = (History.of events).object? id) ∧ (∀ id o, u.object? id = some o → o.id = id) ∧
      (∀ o, (u.insert o).1 = u.object? o.id) ∧
      (∀ o, o ∈ u.toList ↔ u.object? o.id = some o) ∧ (u.toList.Pairwise fun a b => a.id.toInt < b.id.toInt) ∧
      u.size = (History.of events).ids.dedup.length ∧
      (∀ name, u.property? name = (History.of events).property? name) ∧
      (∀ o, (u.insert o).2.properties = u.properties ∧ (u.withObject o).properties = u.properties) ∧
      ∀ name v, (u.setProperty name v).objects = u.objects := by
  have hrecalls := recalls_of_run h
  refine ⟨hrecalls.object, fun id o ho => ?_, fun _ => rfl, fun o => ?_, u.ascending, hrecalls.size_eq,
    hrecalls.property, fun _ => ⟨rfl, rfl⟩, fun _ _ => rfl⟩
  · exact (object?_eq_some_iff.mp ho).2
  · rw [object?_eq_some_iff]
    exact (and_iff_left rfl).symm

/-- A document does away with a buoy and the turn, and brings a ship that a field then replaces. -/
theorem keyed_store_reloaded :
    let events : List Event :=
      [.changed (.insert buoy), .changed (.setProperty "CurrentTurn" (.int 42)),
        .loaded "[[[7, \"Ark\", \"Ship\"], [-5, \"\", \"Field\"]]]", .changed (.insert quotedField),
        .changed (.withObject { buoy with id := -4 })]
    ∃ u, run events = .ok u ∧ u.object? buoy.id = none ∧ u.object? 7 = some quotedField ∧
      (u.insert { buoy with id := 7 }).1 = some quotedField ∧ u.toList.map Object.id = [-5, -4, 7] ∧
      (u.toList.Pairwise fun a b => a.id.toInt < b.id.toInt) ∧ u.size = 3 ∧ u.property? "CurrentTurn" = none := by
  intro events
  have hrun : ∃ u, run events = .ok u ∧ u.toList.map Object.id = [-5, -4, 7] := ⟨_, rfl, rfl⟩
  obtain ⟨u, hu, hids⟩ := hrun
  obtain ⟨hobject, -, hinsert, -, hascending, hsize, hproperty, -, -⟩ := keyed_store events u hu
  have hfield : u.object? 7 = some quotedField := (hobject 7).trans rfl
  exact ⟨u, hu, (hobject buoy.id).trans rfl, hfield, (hinsert { buoy with id := 7 }).trans hfield, hids, hascending,
    hsize.trans rfl, (hproperty "CurrentTurn").trans rfl⟩

end RuleExpr.Universe
