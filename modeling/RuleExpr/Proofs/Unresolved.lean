/-
  RuleExpr.Proofs.Unresolved — which variable an unresolved reference comes from.

  An evaluation that finds a slot empty fails with the slot and with the name that was to be looked
  up. Both are those of a variable of the expression (`Node.failsBy_accounts`). A statistic looks its
  property up on the objects that it has found, whatever the first segment of the property is, so it
  never fails that way; nor do conditions, casts and operators. A variable clears the flag of its
  slot, so the flags tell beforehand which slots may be empty (`Node.unresolved_accounted`).

  `Value` refers to the effect target but reads no slot: without a current value it fails as a
  property that is missing.
-/

import RuleExpr.Proofs.Unflagged
import RuleExpr.Proofs.WellFormed

namespace RuleExpr

open Outcome

/-- What an unresolved reference says is so: the slot is empty, and one of the variables `xs` is the
    one that refers to it. -/
def Context.Accounts (c : Context) (xs : List Variable) : Error → Prop
  | .unresolved r path => ∃ s, r = .slot s ∧ c.slot s = none ∧ ∃ x ∈ xs, x.reference = .slot s ∧ x.dotted = path
  | _ => True

variable {c : Context} {xs : List Variable}

theorem Error.OfPath.accounts (e : Error) (h : e.OfPath) : c.Accounts xs e := by
  cases e with
  | unresolved r path => cases h
  | _ => trivial

theorem Error.OfValues.accounts (e : Error) (h : e.OfValues) : c.Accounts xs e := by
  cases e with
  | unresolved r path => cases h
  | _ => trivial

/-! ## Variables -/

theorem Variable.failsBy_accounts {x : Variable} (hx : x ∈ xs) : FailsBy (c.Accounts xs) (x.lookup c) := by
  refine (x.toPath.meets_lookupAs x.reference c).failsBy.mono fun e he => ?_
  rcases he with he | ⟨s, hr, hs, rfl⟩
  · exact he.accounts
  · exact ⟨s, hr, hs, x, hx, hr, rfl⟩

theorem DottedPath.lookupAs_of_empty {p : DottedPath} {s : Slot} (hp : p.segments ≠ [valueSegment])
    (hs : c.slot s = none) : p.lookupAs (.slot s) c = .error (.unresolved (.slot s) p.dotted) := by
  have hobject : c.object? (.slot s) = none := hs
  rw [lookupAs, if_neg hp]
  simp only [hobject]

theorem Variable.lookup_of_empty {x : Variable} {s : Slot} (hp : x.path ≠ [valueSegment])
    (hr : x.reference = .slot s) (hs : c.slot s = none) : x.lookup c = .error (.unresolved (.slot s) x.dotted) := by
  rw [lookup, hr]
  exact DottedPath.lookupAs_of_empty hp hs

/-! ## Expressions -/

namespace Node

theorem failsBy_accounts {H : Type} [HostCondition H] {t : Ty} (n : Node H t)
    (hk : ∀ s ∈ n.statistics, FailsBy (c.Accounts n.vars) (s.condition.select c)) :
    FailsBy (c.Accounts n.vars) (n.eval c) :=
  n.failsBy_eval Error.OfPath.accounts Error.OfValues.accounts (fun _ _ => trivial)
    (fun _ hx => Variable.failsBy_accounts hx) hk

/-- An unresolved reference is that of a variable whose slot is empty, and the flag of the slot is
    not set. So it takes a flag that is not set, and an empty slot; and a variable alone, other than
    the current value, needs no more than its empty slot. -/
theorem unresolved_accounted {t : Ty} (n : Node Empty t) (c : Context) :
    (∀ r path, n.eval c = .error (.unresolved r path) →
      ∃ s, r = .slot s ∧ c.slot s = none ∧ (∃ x ∈ n.vars, x.reference = .slot s ∧ x.dotted = path) ∧
        n.independence.of s = false) ∧
      (n.independence = .full → ∀ r path, n.eval c ≠ .error (.unresolved r path)) ∧
      ((∀ s, c.slot s ≠ none) → ∀ r path, n.eval c ≠ .error (.unresolved r path)) ∧
      ∀ (x : Variable) s, x.path ≠ [valueSegment] → x.reference = .slot s → c.slot s = none →
        (var x : Node Empty t).eval c = .error (.unresolved (.slot s) x.dotted) := by
  have haccounts : ∀ r path, n.eval c = .error (.unresolved r path) → c.Accounts n.vars (.unresolved r path) := by
    intro r path h
    have hn : FailsBy (c.Accounts n.vars) (n.eval c) := n.failsBy_accounts fun s _ => s.condition.failsBy_select nofun
    exact hn.error h
  have hflag : ∀ s, ∀ x ∈ n.vars, x.reference = .slot s → n.independence.of s = false := by
    intro s x hx hr
    by_cases hs : n.independence.of s = true
    · exact absurd hr (n.reference_ne hs x hx)
    · exact Bool.eq_false_iff.mpr hs
  refine ⟨fun r path h => ?_, fun hfull r path h => ?_, fun hslots r path h => ?_, ?_⟩
  · obtain ⟨s, hr, hs, x, hx, hxr, hpath⟩ := haccounts r path h
    exact ⟨s, hr, hs, ⟨x, hx, hxr, hpath⟩, hflag s x hx hxr⟩
  · obtain ⟨s, -, -, x, hx, hxr, -⟩ := haccounts r path h
    have hs := hflag s x hx hxr
    rw [hfull, Independence.of_full] at hs
    cases hs
  · obtain ⟨s, -, hs, -⟩ := haccounts r path h
    exact hslots s hs
  · intro x s hp hr hs
    simp only [eval, Variable.eval, Variable.lookup_of_empty hp hr hs]
    rfl

def targetId : Variable := ⟨["Target", "ID"], by decide, by decide⟩

def sourceIdPath : List String := ["Source", "ID"]

/-- The ids of the source and the target multiplied, added to the ids of all objects. -/
def pairing : Node Empty .int :=
  .binary .plus (.statistic (.ofIds .sum .all))
    (.binary .times (.var ⟨sourceIdPath, by decide, by decide⟩) (.var targetId))

/-- A path from every object, of which the first segment is a property called `Target`. -/
def targetsOfAll : Node Empty .int := .statistic (.ofVariable .sum targetId .all)

/-- Local and root candidate are missing as well as the target, but no variable refers to them. -/
theorem unresolved_accounted_pairing :
    let u := (Universe.empty.withObject outpost).withObject scout
    let c := Context.forSource u scout
    let d := (Context.forTarget u (some scout) outpost).nested scout
    pairing.eval c = .error (.unresolved (.slot .effectTarget) "Target.ID") ∧
      (∃ s, Reference.slot .effectTarget = .slot s ∧ c.slot s = none ∧
        (∃ x ∈ pairing.vars, x.reference = .slot s ∧ x.dotted = "Target.ID") ∧ pairing.independence.of s = false) ∧
      (∀ s, d.slot s ≠ none) ∧ (∀ r path, pairing.eval d ≠ .error (.unresolved r path)) ∧ pairing.eval d = .ok 31 ∧
      targetsOfAll.independence = .full ∧ (∀ r path, targetsOfAll.eval c ≠ .error (.unresolved r path)) ∧
      targetsOfAll.eval c = .error (.property (.unknown 3 "Target")) := by
  intro u c d
  have h : pairing.eval c = .error (.unresolved (.slot .effectTarget) "Target.ID") := rfl
  have hslots : ∀ s, d.slot s ≠ none := by
    intro s
    cases s <;> exact nofun
  obtain ⟨hempty, -, -, -⟩ := pairing.unresolved_accounted c
  obtain ⟨-, -, hfilled, -⟩ := pairing.unresolved_accounted d
  obtain ⟨-, hfull, -, -⟩ := targetsOfAll.unresolved_accounted c
  exact ⟨h, hempty _ _ h, hslots, hfilled hslots, rfl, rfl, hfull rfl, rfl⟩

end Node

end RuleExpr
