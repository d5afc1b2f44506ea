/-
  RuleExpr.Proofs.Selection — conditions as expressions of sets.

  A built-in condition cannot fail, and selects no id twice (`Condition.exists_select`). What is
  true of the objects of the universe and of the source is true of all that it selects
  (`Condition.forall_select`).

  An intersection leaves out some of what its first operand selects and keeps the order
  (`Condition.narrow_sublist`). It goes by ids, so it can hold an object although another operand
  selects a different object of that id. This takes a source from outside the universe. Within
  the universe an id is as good as its object, and an intersection holds exactly the objects that
  all of its operands select (`Condition.mem_select_and`).
-/

import RuleExpr.Proofs.Distinct
import RuleExpr.Proofs.Independence

namespace RuleExpr.Condition

/-! ## What the objects selected have in common -/

section Host

variable {H : Type} [HostCondition H] {c : Context} {found os : List Object} {o : Object}

omit [HostCondition H] in
theorem mem_keep {others : List Object} : o ∈ keep found others ↔ o ∈ found ∧ ∃ p ∈ others, p.id = o.id := by
  simp [keep]

/-- Further operands of an intersection only take objects away. -/
theorem narrow_sublist {ks : List (Condition H)} (h : narrow c found ks = .ok os) : os.Sublist found := by
  induction ks generalizing found with
  | nil =>
    obtain rfl := Except.ok.inj h
    exact .refl _
  | cons next rest ih =>
    simp only [narrow] at h
    split at h
    · exact (ih h).trans List.filter_sublist
    · cases h

theorem forall_select {P : Object → Prop} (hu : ∀ o ∈ c.univ.toList, P o) (hs : ∀ o, c.source = some o → P o)
    (k : Condition H) (hk : ∀ h ∈ k.hosts, ∀ os, HostCondition.select h c = .ok os → ∀ o ∈ os, P o) {os : List Object}
    (hos : k.select c = .ok os) : ∀ o ∈ os, P o := by
  intro o ho
  match k with
  | all =>
    obtain rfl := Except.ok.inj hos
    exact hu o ho
  | objectType m =>
    obtain rfl := Except.ok.inj hos
    exact hu o (List.mem_of_mem_filter ho)
  | withinIds ids =>
    obtain rfl := Except.ok.inj hos
    obtain ⟨id, _, hid⟩ := List.mem_filterMap.mp (mem_of_mem_distinct ho)
    exact hu o (Universe.object?_eq_some_iff.mp hid).1
  | hasProperty name =>
    obtain rfl := Except.ok.inj hos
    exact hu o (List.mem_of_mem_filter ho)
  | source =>
    obtain rfl := Except.ok.inj hos
    exact hs o (Option.mem_toList.mp ho)
  | host h => exact hk h (List.mem_singleton_self h) os hos o ho
  | and [] =>
    obtain rfl := Except.ok.inj hos
    cases ho
  | and (first :: rest) =>
    simp only [select] at hos
    cases hf : select c first with
    | error e =>
      rw [hf] at hos
      cases hos
    | ok found =>
      rw [hf] at hos
      have hfirst := forall_select hu hs first (fun h m => hk h (List.mem_append_left _ m)) hf
      exact hfirst o ((narrow_sublist hos).subset ho)

/-! ## Intersections -/

/-- The condition has an outcome, and the object is in it. -/
def Selects (c : Context) (k : Condition H) (o : Object) : Prop := ∃ os, k.select c = .ok os ∧ o ∈ os

theorem selects_iff {k : Condition H} (h : k.select c = .ok os) : k.Selects c o ↔ o ∈ os := by
  constructor
  · rintro ⟨os', h', ho⟩
    exact Except.ok.inj (h'.symm.trans h) ▸ ho
  · exact fun ho => ⟨os, h, ho⟩

/-- Filtering goes by ids. -/
theorem mem_narrow {ks : List (Condition H)} (h : narrow c found ks = .ok os) :
    o ∈ os ↔ o ∈ found ∧ ∀ k ∈ ks, ∃ p, k.Selects c p ∧ p.id = o.id := by
  induction ks generalizing found with
  | nil =>
    obtain rfl := Except.ok.inj h
    simp
  | cons next rest ih =>
    simp only [narrow] at h
    split at h
    · next others hn =>
      rw [ih h, mem_keep, List.forall_mem_cons, and_assoc]
      simp only [selects_iff hn]
    · cases h

end Host

/-! ## Built-in conditions -/

mutual

theorem exists_select (c : Context) (k : BuiltinCondition) :
    ∃ os, k.select c = .ok os ∧ (os.map Object.id).Nodup := by
  have hfilter (p : Object → Bool) : ((c.univ.toList.filter p).map Object.id).Nodup :=
    (List.filter_sublist.map Object.id).nodup c.univ.nodup_ids
  match k with
  | all => exact ⟨_, rfl, c.univ.nodup_ids⟩
  | objectType m => exact ⟨_, rfl, hfilter _⟩
  | withinIds ids => exact ⟨_, rfl, nodup_distinct _⟩
  | hasProperty name => exact ⟨_, rfl, hfilter _⟩
  | source =>
    refine ⟨_, rfl, ?_⟩
    cases c.source with
    | none => exact List.nodup_nil
    | some o => exact List.nodup_singleton o.id
  | and [] => exact ⟨_, rfl, List.nodup_nil⟩
  | and (first :: rest) =>
    obtain ⟨found, hf, hnodup⟩ := exists_select c first
    obtain ⟨os, hos⟩ := exists_narrow c found rest
    refine ⟨os, ?_, ((narrow_sublist hos).map Object.id).nodup hnodup⟩
    simp only [select, hf, hos]

theorem exists_narrow (c : Context) (found : List Object) (ks : List BuiltinCondition) :
    ∃ os, narrow c found ks = .ok os := by
  match ks with
  | [] => exact ⟨_, rfl⟩
  | next :: rest =>
    obtain ⟨others, hn, _⟩ := exists_select c next
    obtain ⟨os, hos⟩ := exists_narrow c (keep found others) rest
    refine ⟨os, ?_⟩
    simp only [narrow, hn, hos]

end

variable {c : Context} {os : List Object}

/-- In a universe that has the source in it, operands agree on an id only by selecting one object. -/
theorem exists_selects_iff (hs : ∀ o, c.source = some o → o ∈ c.univ.toList) (k : BuiltinCondition) {o : Object}
    (ho : o ∈ c.univ.toList) : (∃ p, k.Selects c p ∧ p.id = o.id) ↔ k.Selects c o := by
  constructor
  · rintro ⟨p, ⟨os, hos, hp⟩, hid⟩
    have hpu : p ∈ c.univ.toList := forall_select (fun _ h => h) hs k nofun hos p hp
    exact ⟨os, hos, Universe.eq_of_id_eq hpu ho hid ▸ hp⟩
  · exact fun h => ⟨o, h, rfl⟩

theorem mem_select_and (hs : ∀ o, c.source = some o → o ∈ c.univ.toList) {ks : List BuiltinCondition}
    (h : (and ks).select c = .ok os) (o : Object) : o ∈ os ↔ ks ≠ [] ∧ ∀ k ∈ ks, k.Selects c o := by
  cases ks with
  | nil =>
    obtain rfl := Except.ok.inj h
    simp
  | cons first rest =>
    obtain ⟨found, hf, _⟩ := exists_select c first
    simp only [select, hf] at h
    have hfound : ∀ p ∈ found, p ∈ c.univ.toList := forall_select (fun _ h => h) hs first nofun hf
    rw [mem_narrow h, List.forall_mem_cons, selects_iff hf]
    constructor
    · rintro ⟨ho, hr⟩
      exact ⟨List.cons_ne_nil _ _, ho, fun k hk => (exists_selects_iff hs k (hfound o ho)).mp (hr k hk)⟩
    · rintro ⟨-, ho, hr⟩
      exact ⟨ho, fun k hk => (exists_selects_iff hs k (hfound o ho)).mpr (hr k hk)⟩

/-- Built-in conditions select without fail and no id twice. Where a source, if there is one, is of the
    universe, an intersection selects what all operands do, if there are any, in the order of the
    first. -/
theorem selects_as_sets (c : Context) :
    (∀ k : BuiltinCondition, ∃ os, k.select c = .ok os ∧ (os.map Object.id).Nodup) ∧
      ((∀ o, c.source = some o → o ∈ c.univ.toList) →
        ∀ ks : List BuiltinCondition, ∃ os, (and ks).select c = .ok os ∧
          (∀ o, o ∈ os ↔ ks ≠ [] ∧ ∀ k ∈ ks, k.Selects c o) ∧
            ∀ first rest found, ks = first :: rest → first.select c = .ok found → os.Sublist found) := by
  refine ⟨exists_select c, fun hs ks => ?_⟩
  obtain ⟨os, hos, _⟩ := exists_select c (and ks)
  refine ⟨os, hos, mem_select_and hs hos, ?_⟩
  rintro first rest found rfl hf
  simp only [select, hf] at hos
  exact narrow_sublist hos

/-- Both objects of the universe, one of them the source, found in an order that is not that of ids. -/
theorem selects_as_sets_both :
    let u := (Universe.empty.withObject outpost).withObject scout
    let c := Context.forSource u scout
    let ks : List BuiltinCondition := [withinIds [7, 5, 3, 7], and [all, all]]
    (∀ o, c.source = some o → o ∈ c.univ.toList) ∧ (and ks).select c = .ok [scout, outpost] ∧
      (∀ o, o ∈ [scout, outpost] ↔ ∀ k ∈ ks, k.Selects c o) ∧ ∀ o, ¬ (and [] : BuiltinCondition).Selects c o := by
  intro u c ks
  have hs : ∀ o, c.source = some o → o ∈ c.univ.toList := by
    intro o ho
    obtain rfl := Option.some.inj ho
    have hfound : u.object? 7 = some scout := rfl
    exact (Universe.object?_eq_some_iff.mp hfound).1
  obtain ⟨os, hos, hmem, _⟩ := (selects_as_sets c).2 hs ks
  obtain ⟨none, hnone, hempty, _⟩ := (selects_as_sets c).2 hs []
  have hboth : (and ks).select c = .ok [scout, outpost] := rfl
  obtain rfl := Except.ok.inj (hos.symm.trans hboth)
  refine ⟨hs, hboth, fun o => ?_, fun o ho => ?_⟩
  · rw [hmem o]
    exact and_iff_right (List.cons_ne_nil _ _)
  · exact ((hempty o).mp ((selects_iff hnone).mp ho)).1 rfl

end RuleExpr.Condition
