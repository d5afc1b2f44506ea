/-
  RuleExpr.Proofs.Lookup — where a value that is looked up comes from, and how lookups fail.

  A path stays within the universe: what it leads to is a property of the object that it starts
  from, or of an object of the universe (`Universe.meets_resolve`). So a lookup gives the current
  value, a property of the universe, or what a path offers from the object in a slot
  (`DottedPath.meets_lookupAs`); for the property of a statistic that is the current value or what
  a path offers from the sampled object (`Statistic.meets_lookup`). Where there is no such value
  the lookup fails, for the path, or for the slot that it refers to and that is empty; always for
  what the data lack and never as an invalid operation.
-/

import RuleExpr.Proofs.Outcome
import RuleExpr.Node.Eval

namespace RuleExpr

open Outcome

/-- Caused by the objects and values found, and not by the way an expression is built. -/
def Error.OfData : Error → Prop
  | unresolved _ _ | property _ | typeMismatch _ _ | arithmetic _ => True
  | invalidOperation _ | config _ | other _ => False

/-- A property path that leads nowhere, or a current value that is missing. -/
def Error.OfPath : Error → Prop
  | property _ => True
  | _ => False

/-- A value of another type than is read, or arithmetic without a result. -/
def Error.OfValues : Error → Prop
  | typeMismatch _ _ | arithmetic _ => True
  | _ => False

theorem Error.OfPath.ofData (e : Error) (h : e.OfPath) : e.OfData := by
  cases e with
  | property fault => trivial
  | _ => cases h

theorem Error.OfValues.ofData (e : Error) (h : e.OfValues) : e.OfData := by
  cases e with
  | typeMismatch expected found | arithmetic fault => trivial
  | _ => cases h

namespace Universe

/-- A property of `o` or of an object of the universe. -/
def Offers (u : Universe) (o : Object) (v : Value) : Prop :=
  ∃ p, (p = o ∨ p ∈ u.toList) ∧ ∃ name, p.property? name = some v

theorem meets_follow (u : Universe) (o : Object) (segment : String) :
    Meets (· ∈ u.toList) Error.OfPath (u.follow o segment) := by
  unfold follow
  split
  · split
    · next linked h => exact List.mem_of_find?_eq_some h
    · trivial
  · trivial
  · trivial

theorem meets_resolve (u : Universe) (o : Object) (path : List String) :
    Meets (u.Offers o) Error.OfPath (u.resolve o path) := by
  induction path generalizing o with
  | nil => exact ⟨o, .inl rfl, "ID", rfl⟩
  | cons segment rest ih =>
    have hf := u.meets_follow o segment
    cases rest with
    | nil =>
      unfold resolve
      split
      · next v h => exact ⟨o, .inl rfl, segment, h⟩
      · trivial
    | cons next rest =>
      unfold resolve
      split
      · next linked h =>
        refine (ih linked).imp fun v hv => ?_
        obtain ⟨p, hp, hname⟩ := hv
        rcases hp with rfl | hp
        · exact ⟨p, .inr (hf.value h), hname⟩
        · exact ⟨p, .inr hp, hname⟩
      · next e h => exact hf.error h

end Universe

theorem Context.meets_currentValue (c : Context) :
    Meets (fun v => c.current = some v) Error.OfPath c.currentValue := by
  unfold currentValue
  split
  · next v h => exact h
  · trivial

/-- A value that a variable can read. -/
inductive Context.Provides (c : Context) (v : Value) : Prop where
  | current (h : c.current = some v)
  | univ (name : String) (h : c.univ.property? name = some v)
  | slot (s : Slot) (o : Object) (ho : c.slot s = some o) (hv : c.univ.Offers o v)

/-- The slot that `r` refers to is empty. -/
def Context.Misses (c : Context) (r : Reference) (name : String) (e : Error) : Prop :=
  ∃ s, r = .slot s ∧ c.slot s = none ∧ e = .unresolved r name

theorem DottedPath.meets_lookupAs (p : DottedPath) (r : Reference) (c : Context) :
    Meets c.Provides (fun e => e.OfPath ∨ c.Misses r p.dotted e) (p.lookupAs r c) := by
  unfold lookupAs
  split
  · exact (c.meets_currentValue.imp fun _ => .current).mono fun _ => .inl
  · split
    · split
      · next v h => exact .univ _ h
      · exact .inl trivial
    · next s =>
      split
      · next o h => exact ((c.univ.meets_resolve o p.properties).imp fun _ => .slot s o h).mono fun _ => .inl
      · next h => exact .inr ⟨s, rfl, h, rfl⟩

theorem Variable.meets_lookup (x : Variable) (c : Context) : Meets c.Provides Error.OfData (x.lookup c) := by
  refine (x.toPath.meets_lookupAs x.reference c).mono fun e he => ?_
  rcases he with he | ⟨s, -, -, rfl⟩
  · exact he.ofData
  · trivial

theorem Statistic.meets_lookup (property : List String) (c : Context) (o : Object) :
    Meets (fun v => c.current = some v ∨ c.univ.Offers o v) Error.OfPath (lookup property c o) := by
  rw [lookup_eq]
  split
  · exact c.meets_currentValue.imp fun _ => .inl
  · exact (c.univ.meets_resolve o property).imp fun _ => .inr

end RuleExpr
