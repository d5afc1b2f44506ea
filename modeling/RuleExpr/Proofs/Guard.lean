/-
  RuleExpr.Proofs.Guard — statistics over objects that are known to have the property.

  A condition may require that a property is in the map of the objects that it selects
  (`Condition.Requires`), by a test for it among the operands of an intersection, at any depth. Where
  the source, if there is one, is of the universe, all that is selected has the property then
  (`Condition.contains_of_selects`), and a statistic over it finds a value on every object. What can
  still fail is reading the values at a type and computing with them (`Statistic.failsBy_ofValues`).

  For one name the lookup breaks the rule that a property is read on each sampled object. It takes
  the path `Value` alone for the context's current value before it looks whose property is asked
  for, so an object that has a property of this name is never asked for it. A statistic over `Value`
  then fails for want of a property where there is no current value (`property_not_found_value`), and
  that is the one way in which a statistic over a required property does (`property_found`).
-/

import RuleExpr.Proofs.Naming
import RuleExpr.Proofs.Sampling
import RuleExpr.Proofs.Selection
import RuleExpr.Proofs.WellFormed

namespace RuleExpr

open Outcome

/-! ## Objects with a property -/

/-- Selects only objects with an entry of that name in their property map, by the way it is built. -/
inductive Condition.Requires {H : Type} (name : String) : Condition H → Prop
  | hasProperty : Requires name (.hasProperty name)
  | and {ks : List (Condition H)} {k : Condition H} (hk : k ∈ ks) (h : Requires name k) : Requires name (.and ks)

theorem Condition.contains_of_selects {name : String} {k : BuiltinCondition} (hk : k.Requires name) {c : Context}
    (hs : ∀ o, c.source = some o → o ∈ c.univ.toList) {o : Object} (ho : k.Selects c o) :
    o.properties.contains name = true := by
  induction hk with
  | hasProperty =>
    obtain ⟨os, hos, ho⟩ := ho
    obtain rfl := Except.ok.inj hos
    exact (List.mem_filter.mp ho).2
  | @and ks k hk _ ih =>
    obtain ⟨os, hos, ho⟩ := ho
    exact ih (((mem_select_and hs hos o).mp ho).2 k hk)

theorem Object.exists_property? {o : Object} {name : String} (h : o.properties.contains name = true) :
    ∃ v, o.property? name = some v := by
  unfold property?
  split
  · exact ⟨_, rfl⟩
  split
  · exact ⟨_, rfl⟩
  split
  · exact ⟨_, rfl⟩
  · obtain ⟨p, hp⟩ := Option.isSome_iff_exists.mp h
    exact ⟨p.2, by rw [TextMap.get?, hp]; rfl⟩

/-! ## Statistics that find their property -/

namespace Statistic

section Host

variable {H : Type} [HostCondition H] {t : Ty} {s : Statistic H} {c : Context} {os : List Object}

/-- If its property is found on every object selected, a statistic fails by the values only. -/
theorem failsBy_ofValues (hr : t.supports s.reduction = true) (hos : s.condition.select c = .ok os)
    (hfound : s.reduction.needsValues = true → ∀ o ∈ os, ∃ v, lookup s.property c o = .ok v) :
    FailsBy Error.OfValues (s.eval t c) := by
  have hvalues : FailsBy Error.OfValues (s.values t c (distinct os)) := by
    unfold values
    split
    · next hn =>
      refine (meets_mapM (R := fun _ => True) fun o ho => ?_).failsBy
      obtain ⟨v, hv⟩ := hfound hn o (mem_of_mem_distinct ho)
      rw [hv]
      exact v.failsBy_readAs t
    · trivial
  rw [eval_of_select hr hos, ← distinct_eq_firstOfEachId]
  exact hvalues.bind fun vs _ => Ty.failsBy_reduce hr vs _

theorem eval_of_no_current (hr : t.supports s.reduction = true) (hos : s.condition.select c = .ok os)
    (hs : s.ReadsCurrent) (hc : c.current = none) (hne : os ≠ []) :
    s.eval t c = .error (.property .noCurrentValue) := by
  obtain ⟨first, rest, rfl⟩ := List.exists_cons_of_ne_nil hne
  have hfirst : distinct (first :: rest) = first :: distinct.go [first.id] rest := rfl
  have hlookup : lookup s.property c first = .error (.property .noCurrentValue) := by
    rw [lookup_eq, if_pos hs.2, Context.currentValue, hc]
  rw [eval_of_select hr hos, ← distinct_eq_firstOfEachId, values, if_pos hs.1, hfirst, List.mapM_cons, hlookup]
  rfl

end Host

theorem propertyPath_of_undotted {name : String} (hne : name ≠ "") (hdot : '.' ∉ name.toList) :
    propertyPath name = [name] := by
  have hjoin : Text.join [name] = name := String.intercalate_singleton
  have hsplit := Text.split_join (List.cons_ne_nil name []) fun s hs => List.mem_singleton.mp hs ▸ hdot
  rw [hjoin] at hsplit
  rw [propertyPath, if_neg hne, hsplit]

theorem ofProperty_eq {H : Type} (s : Statistic H) {property : String} (h : propertyPath property = s.property) :
    ofProperty s.reduction property s.condition = .ok s := by
  obtain ⟨r, path, k, hs, hn⟩ := s
  cases h
  exact (dif_pos hs).trans (dif_pos hn)

/-- Found on the object selected; but for `Value` the lookup goes to the current value. -/
theorem exists_lookup {name : String} {k : BuiltinCondition} (hk : k.Requires name) {c : Context}
    (hsource : ∀ o, c.source = some o → o ∈ c.univ.toList) (hcurrent : name = valueSegment → c.current ≠ none)
    {o : Object} (ho : k.Selects c o) : ∃ v, lookup [name] c o = .ok v := by
  rw [lookup_eq]
  split
  · next hvalue =>
    obtain ⟨v, hv⟩ := Option.ne_none_iff_exists'.mp (hcurrent (List.head_eq_of_cons_eq hvalue))
    exact ⟨v, by rw [Context.currentValue, hv]⟩
  · obtain ⟨v, hv⟩ := Object.exists_property? (Condition.contains_of_selects hk hsource ho)
    exact ⟨v, by rw [Universe.resolve, hv]⟩

/-- A statistic over a property that its condition requires does not fail for want of an object or a
    property, except where the lookup misses the object: the name is `Value`, there is no current
    value to be taken for it, and some object is selected. -/
theorem property_found {name : String} (hne : name ≠ "") (hdot : '.' ∉ name.toList) (r : Reduction)
    {k : BuiltinCondition} (hk : k.Requires name) :
    ∃ s, ofProperty r name k = .ok s ∧ ∀ (t : Ty) (c : Context), t.supports r = true →
      (∀ o, c.source = some o → o ∈ c.univ.toList) →
        (∀ reference path, s.eval t c ≠ .error (.unresolved reference path)) ∧
          ((∃ fault, s.eval t c = .error (.property fault)) ↔
            name = valueSegment ∧ c.current = none ∧ r.needsValues = true ∧ ∃ o, k.Selects c o) := by
  have hsegment : ∀ s ∈ [name], s ≠ "" := fun s hs => List.mem_singleton.mp hs ▸ hne
  let s : Statistic Empty := ⟨r, [name], k, hsegment, fun _ => List.cons_ne_nil _ _⟩
  refine ⟨s, ofProperty_eq s (propertyPath_of_undotted hne hdot), fun t c hr hsource => ?_⟩
  obtain ⟨os, hos, _⟩ := Condition.exists_select c k
  -- the only way to lose the property; otherwise all matches have it, and only values can fail
  by_cases hlost : name = valueSegment ∧ c.current = none ∧ r.needsValues = true ∧ ∃ o, k.Selects c o
  · obtain ⟨rfl, hc, hn, o, ho⟩ := hlost
    have hnil : os ≠ [] := List.ne_nil_of_mem ((Condition.selects_iff hos).mp ho)
    have he : s.eval t c = .error (.property .noCurrentValue) := eval_of_no_current hr hos ⟨hn, rfl⟩ hc hnil
    rw [he]
    exact ⟨nofun, fun _ => ⟨rfl, hc, hn, o, ho⟩, fun _ => ⟨_, rfl⟩⟩
  · have hfound : r.needsValues = true → ∀ o ∈ os, ∃ v, lookup [name] c o = .ok v := by
      intro hn o ho
      have hselects : k.Selects c o := ⟨os, hos, ho⟩
      exact exists_lookup hk hsource (fun hvalue hc => hlost ⟨hvalue, hc, hn, o, hselects⟩) hselects
    have hs : FailsBy Error.OfValues (s.eval t c) := failsBy_ofValues hr hos hfound
    refine ⟨fun reference path he => hs.error he, fun ⟨fault, he⟩ => ?_, fun h => absurd h hlost⟩
    exact (hs.error he).elim

/-! ## Freight, and a property with the name of the current value -/

def barge : Object := { id := 9, objectType := .invalid _, properties := TextMap.set ∅ "Cargo" (.text "ore") }

/-- Those of three objects that have freight. -/
def freighters : BuiltinCondition := .and [.withinIds [3, 7, 9], .and [.all, .hasProperty "Cargo"]]

/-- The outpost has no freight and is left out; the freight of the barge is not a number. -/
theorem property_found_cargo :
    let u := ((Universe.empty.withObject laden).withObject outpost).withObject barge
    let c := Context.forSource u laden
    ("Cargo" ≠ "" ∧ '.' ∉ "Cargo".toList ∧ freighters.Requires "Cargo" ∧ Ty.int.supports .sum = true ∧
        ∀ o, c.source = some o → o ∈ c.univ.toList) ∧
      freighters.select c = .ok [laden, barge] ∧
      ∃ s, ofProperty .sum "Cargo" freighters = .ok s ∧
        s.eval .int c = .error (.typeMismatch (.of .int) (.of .text)) ∧
        (∀ reference path, s.eval .int c ≠ .error (.unresolved reference path)) ∧
        ∀ fault, s.eval .int c ≠ .error (.property fault) := by
  intro u c
  have hne : "Cargo" ≠ "" := by decide
  have hdot : '.' ∉ "Cargo".toList := by decide
  have hk : freighters.Requires "Cargo" :=
    .and (List.mem_cons_of_mem _ List.mem_cons_self) (.and (List.mem_cons_of_mem _ List.mem_cons_self) .hasProperty)
  have hsource : ∀ o, c.source = some o → o ∈ c.univ.toList := by
    intro o ho
    obtain rfl := Option.some.inj ho
    have hfound : u.object? 7 = some laden := rfl
    exact (Universe.object?_eq_some_iff.mp hfound).1
  obtain ⟨s, hs, hfound⟩ := property_found hne hdot .sum hk
  obtain ⟨hunresolved, hproperty⟩ := hfound .int c rfl hsource
  have hs' : ofProperty .sum "Cargo" freighters = .ok (totalCargo freighters) :=
    ofProperty_eq (totalCargo freighters) (propertyPath_of_undotted hne hdot)
  obtain rfl := Except.ok.inj (hs'.symm.trans hs)
  refine ⟨⟨hne, hdot, hk, rfl, hsource⟩, rfl, _, hs, rfl, hunresolved, fun fault he => ?_⟩
  exact absurd (hproperty.mp ⟨fault, he⟩).1 (by decide)

def priced : Object := { id := 5, objectType := .invalid _, properties := TextMap.set ∅ "Value" (.int 4) }

def totalValue : Statistic Empty :=
  ⟨.sum, ["Value"], .and [.hasProperty "Value"], by decide, fun _ => List.cons_ne_nil _ _⟩

/-- The condition requires the property and the object has it, yet the lookup asks for a current
    value instead. -/
theorem property_not_found_value :
    ¬ ∀ {name : String}, name ≠ "" → '.' ∉ name.toList → ∀ (r : Reduction) (ks : List BuiltinCondition),
        .hasProperty name ∈ ks → ∀ s, ofProperty r name (.and ks) = .ok s →
          ∀ (t : Ty) (c : Context), t.supports r = true → (∀ o, c.source = some o → o ∈ c.univ.toList) →
            ∀ fault, s.eval t c ≠ .error (.property fault) := by
  intro h
  have hne : "Value" ≠ "" := by decide
  have hdot : '.' ∉ "Value".toList := by decide
  have hs : ofProperty .sum "Value" (.and [.hasProperty "Value"]) = .ok totalValue :=
    ofProperty_eq totalValue (propertyPath_of_undotted hne hdot)
  let c : Context := { univ := Universe.empty.withObject priced }
  have hsource : ∀ o, c.source = some o → o ∈ c.univ.toList := by
    intro o ho
    cases ho
  have hlost : totalValue.eval .int c = .error (.property .noCurrentValue) := rfl
  exact h hne hdot .sum _ List.mem_cons_self totalValue hs .int c rfl hsource _ hlost

end Statistic

end RuleExpr
