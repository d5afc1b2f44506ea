/-
  RuleExpr.Proofs.Path — property paths that go on from where another path ends.

  A path with something after it is followed link by link, its last segment as well as the others
  (`Universe.resolve_append`). The last segment of a path that ends there names any property. So what
  the longer path resolves to is known from the value of the shorter one and from the object that had
  it: a link is followed to its object, and a value that leads to no object fails there, by the name
  of the property (`Universe.target`). No more is needed on how the objects are linked, whether in
  cycles or not, or where the path began.
-/

import RuleExpr.Proofs.Outcome
import RuleExpr.Universe

namespace RuleExpr

namespace Universe

/-- The object that a value leads to; `holder` has the value for the property `segment`. -/
def target (u : Universe) (holder : Object) (segment : String) : Value → Outcome Object
  | .object id => match u.object? id with
    | some linked => .ok linked
    | none => .error (.property (.noSuchObject segment holder.id id))
  | v => .error (.property (.notALink segment holder.id v.kind))

theorem follow_eq (u : Universe) (o : Object) (segment : String) :
    u.follow o segment = u.resolve o [segment] >>= u.target o segment := by
  simp only [follow, resolve]
  cases o.property? segment with
  | none => rfl
  | some v =>
    cases v with
    | object id => rfl
    | of t w => rfl

theorem resolve_cons (u : Universe) (o : Object) (segment : String) {rest : List String} (h : rest ≠ []) :
    u.resolve o (segment :: rest) = u.follow o segment >>= fun linked => u.resolve linked rest := by
  cases rest with
  | nil => exact absurd rfl h
  | cons next rest =>
    rw [resolve]
    · cases u.follow o segment <;> rfl
    · exact h

theorem resolve_append (u : Universe) (o : Object) (p : List String) {q : List String} (hq : q ≠ []) :
    u.resolve o (p ++ q) = p.foldlM u.follow o >>= fun linked => u.resolve linked q := by
  induction p generalizing o with
  | nil => rfl
  | cons segment rest ih =>
    have hrest : rest ++ q ≠ [] := List.append_ne_nil_of_right_ne_nil rest hq
    rw [List.cons_append, resolve_cons u o segment hrest, List.foldlM_cons, bind_assoc]
    simp only [ih]

/-- Up to its last segment a path is followed alike, whether it ends with that or not. -/
theorem resolve_concat_append (u : Universe) (o : Object) (links : List String) (last : String) {q : List String}
    (hq : q ≠ []) :
    u.resolve o (links ++ [last] ++ q) = links.foldlM u.follow o >>= fun holder =>
      u.resolve holder [last] >>= u.target holder last >>= fun linked => u.resolve linked q := by
  rw [resolve_append u o _ hq, List.foldlM_append, bind_assoc]
  simp only [List.foldlM_cons, List.foldlM_nil, bind_pure, follow_eq]

/-- A path fails as the one that it begins with does. Where that leads to an object, the rest is
    resolved from there; where it leads to none, the path fails at the object that has the value. -/
theorem resolve_composes (u : Universe) (o : Object) (p q : List String) (hp : p ≠ []) (hq : q ≠ []) :
    (∀ e, u.resolve o p = .error e → u.resolve o (p ++ q) = .error e) ∧
      (∀ id linked, u.resolve o p = .ok (.object id) → u.object? id = some linked →
        u.resolve o (p ++ q) = u.resolve linked q) ∧
      (∀ id, u.resolve o p = .ok (.object id) → u.object? id = none →
        ∃ holder, p.dropLast.foldlM u.follow o = .ok holder ∧
          u.resolve o (p ++ q) = .error (.property (.noSuchObject (p.getLast hp) holder.id id))) ∧
      ∀ t v, u.resolve o p = .ok (.of t v) →
        ∃ holder, p.dropLast.foldlM u.follow o = .ok holder ∧
          u.resolve o (p ++ q) = .error (.property (.notALink (p.getLast hp) holder.id (.of t))) := by
  have hp' : p.dropLast ++ [p.getLast hp] = p := List.dropLast_concat_getLast hp
  have hlast := u.resolve_append o p.dropLast (List.cons_ne_nil (p.getLast hp) [])
  have happend := u.resolve_concat_append o p.dropLast (p.getLast hp) hq
  rw [hp'] at hlast happend
  rw [hlast, happend]
  cases p.dropLast.foldlM u.follow o with
  | error e => exact ⟨fun _ h => h, nofun, nofun, nofun⟩
  | ok holder =>
    simp only [Outcome.ok_bind]
    refine ⟨?_, ?_, ?_, ?_⟩
    · intro e h
      rw [h]
      rfl
    · intro id linked h hid
      rw [h, Outcome.ok_bind, target, hid]
      rfl
    · intro id h hid
      refine ⟨holder, rfl, ?_⟩
      rw [h, Outcome.ok_bind, target, hid]
      rfl
    · intro t v h
      refine ⟨holder, rfl, ?_⟩
      rw [h]
      rfl

end Universe

/-! ## Two objects that link to each other -/

def flagship : Object :=
  { id := 1, objectType := .invalid _, name := "Aurora",
    properties := TextMap.set (TextMap.set ∅ "Escort" (.object 2)) "Port" (.object 9) }

def frigate : Object := { id := 2, objectType := .invalid _, properties := TextMap.set ∅ "Escort" (.object 1) }

/-- The paths begin at an object that the universe does not have, with the id of one that it has, and
    go round. The port has no object, and a name is no link. -/
theorem Universe.resolve_composes_cycle :
    let u := (Universe.empty.withObject flagship).withObject frigate
    let o := { flagship with name := "Wreck" }
    let round := ["Escort", "Escort", "Escort"]
    let lost := ["Escort", "Port"]
    let port := ["Escort", "Escort", "Port"]
    let named := ["Escort", "Name"]
    (u.resolve o lost = .error (.property (.unknown 2 "Port")) ∧
        u.resolve o (lost ++ named) = .error (.property (.unknown 2 "Port"))) ∧
      (u.resolve o round = .ok (.object 2) ∧ u.object? 2 = some frigate ∧
        u.resolve o (round ++ named) = u.resolve frigate named ∧ u.resolve frigate named = .ok (.text "Aurora")) ∧
      (u.resolve o port = .ok (.object 9) ∧ u.object? 9 = none ∧
        ∃ holder, ["Escort", "Escort"].foldlM u.follow o = .ok holder ∧
          u.resolve o (port ++ named) = .error (.property (.noSuchObject "Port" holder.id 9))) ∧
      u.resolve o named = .ok (.text "") ∧
        ∃ holder, ["Escort"].foldlM u.follow o = .ok holder ∧
          u.resolve o (named ++ round) = .error (.property (.notALink "Name" holder.id (.of .text))) := by
  intro u o round lost port named
  have hlost : u.resolve o lost = .error (.property (.unknown 2 "Port")) := rfl
  have hround : u.resolve o round = .ok (.object 2) := rfl
  have hport : u.resolve o port = .ok (.object 9) := rfl
  have hnamed : u.resolve o named = .ok (.text "") := rfl
  have hne : named ≠ [] := List.cons_ne_nil _ _
  obtain ⟨herror, -, -, -⟩ := u.resolve_composes o lost named (List.cons_ne_nil _ _) hne
  obtain ⟨-, hlinked, -, -⟩ := u.resolve_composes o round named (List.cons_ne_nil _ _) hne
  obtain ⟨-, -, hdangling, -⟩ := u.resolve_composes o port named (List.cons_ne_nil _ _) hne
  obtain ⟨-, -, -, hvalue⟩ := u.resolve_composes o named round hne (List.cons_ne_nil _ _)
  exact ⟨⟨hlost, herror _ hlost⟩, ⟨hround, rfl, hlinked 2 frigate hround rfl, rfl⟩,
    ⟨hport, rfl, hdangling 9 hport rfl⟩, hnamed, hvalue .text "" hnamed⟩

end RuleExpr
