/-
  RuleExpr.Proofs.Reloading — universes that are written and loaded again.

  The objects of a body are added one by one. As long as no id has repeated, the ids of the
  universe are those of the objects added so far, so the next object is added if its id is
  none of these, and is refused otherwise (`foldlM_add`). Hence a body becomes a universe
  exactly if no id repeats, and what it becomes does not depend on the order; a refusal names
  the id of the first object whose id occurs before it (`Body.toUniverse_cases`).

  Of everything that a document is made of there is one lemma: the tree it is written as is
  exact and is decoded to what was written (`Carries`). Values other than doubles are carried
  (`Value.carries`), hence maps of them, objects and whole universes; with the round trip of
  JSON text a universe without doubles is loaded as it was (`parse_print`). Every change of a
  universe keeps it without doubles if the change brings none (`Discrete.apply`).
-/

import RuleExpr.Document.Universe
import RuleExpr.Proofs.Json

namespace RuleExpr

/-! ## Universes of bodies -/

namespace Universe

/-- `o` is the first of the objects whose id occurs before it. -/
def FirstRepeat (os : List Object) (o : Object) : Prop :=
  ∃ before after, os = before ++ o :: after ∧ (before.map Object.id).Nodup ∧ o.id ∈ before.map Object.id

theorem FirstRepeat.not_nodup {os : List Object} {o : Object} (h : FirstRepeat os o) : ¬ (os.map Object.id).Nodup := by
  obtain ⟨before, after, rfl, -, hmem⟩ := h
  rw [List.map_append, List.nodup_append]
  rintro ⟨-, -, hdisjoint⟩
  exact hdisjoint o.id hmem o.id (List.mem_map_of_mem List.mem_cons_self) rfl

/-- The ids in the universe are those of `os`. -/
def HasIds (u : Universe) (os : List Object) : Prop := ∀ id, u.object? id = none ↔ id ∉ os.map Object.id

theorem HasIds.withObject {u : Universe} {os : List Object} (h : u.HasIds os) (o : Object) :
    (u.withObject o).HasIds (os ++ [o]) := by
  intro id
  rw [object?_withObject, List.map_append, List.mem_append, List.map_singleton, List.mem_singleton, not_or, ← h id]
  by_cases hid : o.id = id
  · simp [hid]
  · simp [hid, Ne.symm hid]

namespace Body

theorem add_of_absent {u : Universe} {o : Object} (h : u.object? o.id = none) : add u o = .ok (u.withObject o) := by
  simp [add, insert, h, withObject]

theorem add_of_present {u : Universe} {o : Object} (h : u.object? o.id ≠ none) :
    add u o = .error (.duplicateObject o.id) := by
  obtain ⟨p, hp⟩ := Option.ne_none_iff_exists'.mp h
  simp [add, insert, hp]

/-- Adding `os` to a universe that holds the objects `before`. -/
theorem foldlM_add {u : Universe} {before : List Object} (h : u.HasIds before) (hnodup : (before.map Object.id).Nodup)
    (os : List Object) :
    (((before ++ os).map Object.id).Nodup ∧ os.foldlM add u = .ok (os.foldl withObject u)) ∨
      ∃ o, FirstRepeat (before ++ os) o ∧ os.foldlM add u = .error (.duplicateObject o.id) := by
  induction os generalizing u before with
  | nil => exact .inl ⟨by rwa [List.append_nil], rfl⟩
  | cons o os ih =>
    by_cases hid : o.id ∈ before.map Object.id
    · have hpresent : u.object? o.id ≠ none := fun hnone => (h o.id).mp hnone hid
      refine .inr ⟨o, ⟨before, os, rfl, hnodup, hid⟩, ?_⟩
      rw [List.foldlM_cons, add_of_present hpresent]
      rfl
    · have habsent : u.object? o.id = none := (h o.id).mpr hid
      have hnodup' : ((before ++ [o]).map Object.id).Nodup := by
        rw [List.map_append, List.nodup_append]
        refine ⟨hnodup, by simp, fun id hmem id' hmem' => ?_⟩
        obtain rfl := List.mem_singleton.mp hmem'
        rintro rfl
        exact hid hmem
      have hrest := ih (h.withObject o) hnodup'
      rw [List.append_assoc] at hrest
      rw [List.foldlM_cons, add_of_absent habsent]
      exact hrest

theorem foldl_withObject (os : List Object) (u : Universe) :
    os.foldl withObject u = { u with objects := os.foldl KeyOrdered.insert u.objects } := by
  induction os generalizing u with
  | nil => rfl
  | cons o os ih => exact ih (u.withObject o)

theorem toUniverse_cases (b : Body) :
    ((b.objects.map Object.id).Nodup ∧ b.toUniverse = .ok ⟨KeyOrdered.ofList b.objects, b.properties⟩) ∨
      ∃ o, FirstRepeat b.objects o ∧ b.toUniverse = .error (.duplicateObject o.id) := by
  have hnone : HasIds { properties := b.properties } [] := by
    intro id
    exact iff_of_true rfl List.not_mem_nil
  have hload := foldlM_add hnone List.nodup_nil b.objects
  rw [foldl_withObject] at hload
  exact hload

theorem toUniverse_of_nodup {b : Body} (h : (b.objects.map Object.id).Nodup) :
    b.toUniverse = .ok ⟨KeyOrdered.ofList b.objects, b.properties⟩ := by
  rcases b.toUniverse_cases with ⟨-, hok⟩ | ⟨o, ho, -⟩
  · exact hok
  · exact absurd h ho.not_nodup

theorem toUniverse_ok_iff {b : Body} : (∃ u, b.toUniverse = .ok u) ↔ (b.objects.map Object.id).Nodup := by
  constructor
  · rintro ⟨u, hu⟩
    rcases b.toUniverse_cases with ⟨hnodup, -⟩ | ⟨o, -, herror⟩
    · exact hnodup
    · cases hu.symm.trans herror
  · intro h
    exact ⟨_, toUniverse_of_nodup h⟩

theorem toUniverse_of_not_nodup {b : Body} (h : ¬ (b.objects.map Object.id).Nodup) :
    ∃ o, FirstRepeat b.objects o ∧ b.toUniverse = .error (.duplicateObject o.id) := by
  rcases b.toUniverse_cases with ⟨hnodup, -⟩ | hrepeat
  · exact absurd hnodup h
  · exact hrepeat

theorem toUniverse_eq_of_perm {b b' : Body} (h : b.objects.Perm b'.objects) (hp : b.properties = b'.properties)
    (hnodup : (b.objects.map Object.id).Nodup) : b.toUniverse = b'.toUniverse := by
  have hnodup' : (b'.objects.map Object.id).Nodup := (h.map Object.id).nodup_iff.mp hnodup
  rw [toUniverse_of_nodup hnodup, toUniverse_of_nodup hnodup', KeyOrdered.ofList_eq_of_perm hnodup h, hp]

/-- What a universe is written as makes up that universe. -/
theorem toUniverse_written (u : Universe) : toUniverse ⟨u.toList, u.properties⟩ = .ok u := by
  rw [toUniverse_of_nodup u.nodup_ids]
  exact congrArg (fun objects => Except.ok (⟨objects, u.properties⟩ : Universe)) u.objects.ofList_items

end Body

end Universe

/-! ## What a tree carries -/

namespace Json

/-- The tree is exact and is decoded to `a`. -/
structure Carries {α : Type} (read : Json → Option α) (j : Json) (a : α) : Prop where
  exact : j.Exact
  read_eq : read j = some a

variable {α : Type} {read : Json → Option α} {write : α → Json}

theorem mapM_map_eq_some {β γ : Type} {f : β → γ} {g : γ → Option β} {l : List β}
    (h : ∀ b ∈ l, g (f b) = some b) : (l.map f).mapM g = some l := by
  induction l with
  | nil => rfl
  | cons b l ih =>
    have hb := h b List.mem_cons_self
    have hl := ih fun b' hb' => h b' (List.mem_cons_of_mem b hb')
    simp [hb, hl]

theorem carries_list {as : List α} (h : ∀ a ∈ as, Carries read (write a) a) :
    Carries (list? read) (.arr (as.map write)) as := by
  refine ⟨.arr fun j hj => ?_, mapM_map_eq_some fun a ha => (h a ha).read_eq⟩
  obtain ⟨a, ha, rfl⟩ := List.mem_map.mp hj
  exact (h a ha).exact

theorem carries_map {m : TextMap α} (h : ∀ e ∈ m.items, Carries read (write e.2) e.2) :
    Carries (map? read) (ofMap write m) m := by
  refine ⟨.obj fun e he => ?_, ?_⟩
  · obtain ⟨item, hitem, rfl⟩ := List.mem_map.mp he
    exact (h item hitem).exact
  · have hitems : (m.items.map fun e => (e.1, write e.2)).mapM (fun e => (read e.2).map fun v => (e.1, v))
        = some m.items := by
      apply mapM_map_eq_some
      intro e he
      rw [(h e he).read_eq]
      rfl
    rw [ofMap, map?, hitems]
    exact congrArg some m.ofList_items

theorem carries_int (n : Int32) : Carries int32? (.int n.toInt) n :=
  ⟨.int ⟨Int.le_trans (by decide) n.minValue_le_toInt, Int.lt_of_le_of_lt n.toInt_le (by decide)⟩, int32?_toInt n⟩

end Json

open Json

/-! ## Values -/

theorem Kind.ofName?_name (k : Kind) : Kind.ofName? k.name = some k := by
  cases k with
  | object => rfl
  | of t =>
    cases t with
    | enum e => cases e <;> rfl
    | _ => rfl

theorem Member.carries {e : Enumeration} (m : Member e) : Carries (Member.ofJson? e) (.str m.keyword) m :=
  ⟨.str _, Member.ofKeyword?_keyword m⟩

theorem Ty.carries {t : Ty} (ht : t ≠ .double) (c : t.Carrier) : Carries t.ofJson? (t.toJson c) c := by
  cases t with
  | int => exact carries_int c
  | double => exact absurd rfl ht
  | text => exact ⟨.str _, rfl⟩
  | enum e => exact Member.carries c

namespace Value

/-- Not a double. -/
def Discrete (v : Value) : Prop := v.kind ≠ .of .double

instance (v : Value) : Decidable v.Discrete := inferInstanceAs (Decidable (_ ≠ _))

theorem carries {v : Value} (h : v.Discrete) : Carries ofJson? v.toJson v := by
  cases v with
  | of t c =>
    have hc : Carries t.ofJson? (t.toJson c) c := Ty.carries (fun ht => h (congrArg Kind.of ht)) c
    exact ⟨.obj (by simpa using hc.exact), by simp [toJson, ofJson?, kind, Kind.ofName?_name, hc.read_eq]⟩
  | object id =>
    have hid := carries_int id
    exact ⟨.obj (by simpa using hid.exact), by simp [toJson, ofJson?, kind, Kind.ofName?_name, hid.read_eq]⟩

end Value

/-- No value in the map is a double. -/
def TextMap.Discrete (m : TextMap Value) : Prop := ∀ e ∈ m.items, e.2.Discrete

instance (m : TextMap Value) : Decidable m.Discrete := inferInstanceAs (Decidable (∀ e ∈ m.items, e.2.Discrete))

theorem TextMap.Discrete.set {m : TextMap Value} (h : m.Discrete) {name : String} {v : Value} (hv : v.Discrete) :
    (m.set name v).Discrete := by
  intro e he
  rcases KeyOrdered.mem_place he with rfl | he
  · exact hv
  · exact h e he

theorem TextMap.Discrete.carries {m : TextMap Value} (h : m.Discrete) :
    Carries (map? Value.ofJson?) (ofMap Value.toJson m) m :=
  carries_map fun e he => Value.carries (h e he)

/-! ## Objects and universes -/

theorem Object.carries {o : Object} (h : o.properties.Discrete) : Carries ofJson? o.toJson o := by
  have hid := carries_int o.id
  have htype := o.objectType.carries
  have hproperties := h.carries
  have hrecord : o.toJson.record? ["id", "name", "object_type", "properties"]
      = some [some (.int o.id.toInt), some (.str o.name), some (.str o.objectType.keyword),
          some (ofMap Value.toJson o.properties)] := rfl
  constructor
  · refine .obj ?_
    simp only [List.mem_cons, List.not_mem_nil, or_false, forall_eq_or_imp, forall_eq]
    exact ⟨hid.exact, .str _, htype.exact, hproperties.exact⟩
  · rw [ofJson?, hrecord]
    simp [required?, defaulted?, text?, hid.read_eq, htype.read_eq, hproperties.read_eq]

namespace Universe

structure Discrete (u : Universe) : Prop where
  objects : ∀ o ∈ u.toList, o.properties.Discrete
  properties : u.properties.Discrete

theorem discrete_empty : empty.Discrete := ⟨nofun, nofun⟩

theorem carries {u : Universe} (h : u.Discrete) : Carries Body.ofJson? u.toJson ⟨u.toList, u.properties⟩ := by
  have hobjects := carries_list fun o ho => Object.carries (h.objects o ho)
  have hproperties := h.properties.carries
  have hrecord : u.toJson.record? ["objects", "properties"]
      = some [some (.arr (u.toList.map Object.toJson)), some (ofMap Value.toJson u.properties)] := rfl
  constructor
  · refine .obj ?_
    simp only [List.mem_cons, List.not_mem_nil, or_false, forall_eq_or_imp, forall_eq]
    exact ⟨hobjects.exact, hproperties.exact⟩
  · rw [Body.ofJson?, hrecord]
    simp [defaulted?, hobjects.read_eq, hproperties.read_eq]

theorem parse_print {u : Universe} (h : u.Discrete) : parse u.print = .ok u := by
  have hcarries := u.carries h
  rw [parse, print, read?_print hcarries.exact]
  simp [hcarries.read_eq, Body.toUniverse_written]

/-! ## Changes -/

inductive Change where
  | insert (o : Object)
  | withObject (o : Object)
  | setProperty (name : String) (v : Value)

namespace Change

def apply (u : Universe) : Change → Universe
  | insert o => (u.insert o).2
  | withObject o => u.withObject o
  | setProperty name v => u.setProperty name v

/-- The change brings no double. -/
def Discrete : Change → Prop
  | insert o => o.properties.Discrete
  | withObject o => o.properties.Discrete
  | setProperty _ v => v.Discrete

instance : (change : Change) → Decidable change.Discrete
  | insert o => inferInstanceAs (Decidable o.properties.Discrete)
  | withObject o => inferInstanceAs (Decidable o.properties.Discrete)
  | setProperty _ v => inferInstanceAs (Decidable v.Discrete)

end Change

theorem Discrete.withObject {u : Universe} (h : u.Discrete) {o : Object} (ho : o.properties.Discrete) :
    (u.withObject o).Discrete := by
  refine ⟨fun p hp => ?_, h.properties⟩
  rcases KeyOrdered.mem_place hp with rfl | hp
  · exact ho
  · exact h.objects p hp

theorem Discrete.apply {u : Universe} (h : u.Discrete) {change : Change} (hc : change.Discrete) :
    (change.apply u).Discrete := by
  cases change with
  | insert o => exact h.withObject hc
  | withObject o => exact h.withObject hc
  | setProperty name v => exact ⟨h.objects, h.properties.set hc⟩

theorem Discrete.foldl {u : Universe} (h : u.Discrete) {changes : List Change}
    (hc : ∀ change ∈ changes, change.Discrete) : (changes.foldl Change.apply u).Discrete := by
  induction changes generalizing u with
  | nil => exact h
  | cons change changes ih =>
    have hstep : (change.apply u).Discrete := h.apply (hc change List.mem_cons_self)
    exact ih hstep fun c hmem => hc c (List.mem_cons_of_mem change hmem)

/-- What has no doubles is loaded as it was written; and a body makes up a universe exactly if no
    id repeats in it, the same universe in any order, and is refused by the first id that does. -/
theorem reloaded_as_written :
    (∀ changes : List Change, (∀ change ∈ changes, change.Discrete) →
      let u := changes.foldl Change.apply empty
      parse u.print = .ok u) ∧
      ∀ b : Body,
        ((∃ u, b.toUniverse = .ok u) ↔ (b.objects.map Object.id).Nodup) ∧
        (∀ b' : Body, b.objects.Perm b'.objects → b.properties = b'.properties → ∀ u, b.toUniverse = .ok u →
          b'.toUniverse = .ok u) ∧
        (¬ (b.objects.map Object.id).Nodup → ∃ o, FirstRepeat b.objects o ∧
          ∃ fault, b.toUniverse = .error fault ∧ fault.message = "duplicate object id " ++ toString o.id) := by
  refine ⟨fun changes hc => parse_print (discrete_empty.foldl hc), fun b => ⟨Body.toUniverse_ok_iff, ?_, ?_⟩⟩
  · intro b' hobjects hproperties u hu
    have hnodup := Body.toUniverse_ok_iff.mp ⟨u, hu⟩
    rw [← Body.toUniverse_eq_of_perm hobjects hproperties hnodup, hu]
  · intro hrepeats
    obtain ⟨o, ho, herror⟩ := Body.toUniverse_of_not_nodup hrepeats
    exact ⟨o, ho, _, herror, rfl⟩

def buoy : Object := { id := -3, objectType := ⟨⟨8, by decide⟩⟩ }

/-- Its name needs escapes, and it has a link. -/
def quotedField : Object :=
  { buoy with id := 7, name := "\"Sargasso\" \\ \n\x01", properties := TextMap.set ∅ "Near" (.object buoy.id) }

theorem reloaded_as_written_field :
    let changes : List Change := [.insert buoy, .withObject quotedField, .setProperty "CurrentTurn" (.int 42)]
    let u := changes.foldl Change.apply empty
    let twice : Body := ⟨[quotedField, buoy, quotedField], ∅⟩
    parse u.print = .ok u ∧
      Body.toUniverse ⟨[buoy, quotedField], ∅⟩ = .ok ((empty.withObject quotedField).withObject buoy) ∧
      ∃ o, FirstRepeat twice.objects o ∧
        ∃ fault, twice.toUniverse = .error fault ∧ fault.message = "duplicate object id " ++ toString o.id := by
  intro changes u twice
  have hchanges : ∀ change ∈ changes, change.Discrete := by decide
  have hperm : [quotedField, buoy].Perm [buoy, quotedField] := .swap buoy quotedField []
  have hrepeats : ¬ (twice.objects.map Object.id).Nodup := by decide
  refine ⟨reloaded_as_written.1 changes hchanges, ?_, ?_⟩
  · obtain ⟨-, horder, -⟩ := reloaded_as_written.2 ⟨[quotedField, buoy], ∅⟩
    exact horder ⟨[buoy, quotedField], ∅⟩ hperm rfl _ rfl
  · obtain ⟨-, -, hrefused⟩ := reloaded_as_written.2 twice
    exact hrefused hrepeats

end Universe

end RuleExpr
