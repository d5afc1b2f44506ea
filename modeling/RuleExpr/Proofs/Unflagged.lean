/-
  RuleExpr.Proofs.Unflagged — what evaluation reads although the flags deny it.

  A statistic always has the flag of the local candidate, which stands for the object sampled.
  But its condition is evaluated before any object is sampled, in the context as it is, and a
  condition of the host may look at the local candidate there (`local_flag_not_honoured`). The
  flag can be relied on where the host's conditions select alike
  (`eval_setSlot_localCandidate`).

  The current value goes with the effect target: a variable `Value` clears the target's flag. A
  statistic of the property `Value` reads the current value as well, but does not clear it
  (`target_flag_not_honoured`). Without such a statistic the flag can be relied on when the
  target and the current value change together (`eval_forEffect`).

  Besides what the host makes of the context, conditions read the objects of the universe and the
  source only (`Condition.select_congr`); both results rest on this.
-/

import RuleExpr.Proofs.Independence

namespace RuleExpr

/-! ## What conditions and expressions read -/

namespace Condition

variable {H : Type} [HostCondition H] {c d : Context}

mutual

theorem select_congr (k : Condition H) (hu : c.univ.objects = d.univ.objects) (hs : c.source = d.source)
    (hk : ∀ h ∈ k.hosts, HostCondition.select h c = HostCondition.select h d) : k.select c = k.select d := by
  match k with
  | all => simp only [select, Universe.toList, hu]
  | objectType m => simp only [select, Universe.toList, hu]
  | withinIds ids => simp only [select, Universe.object?_congr hu]
  | hasProperty name => simp only [select, Universe.toList, hu]
  | source => simp only [select, hs]
  | host h => exact hk h (List.mem_singleton_self h)
  | and [] => rfl
  | and (first :: rest) =>
    have ef := select_congr first hu hs fun h m => hk h (List.mem_append_left _ m)
    simp only [select, ef]
    cases select d first with
    | error e => rfl
    | ok found => exact narrow_congr rest hu hs (fun h m => hk h (List.mem_append_right _ m)) found

theorem narrow_congr (ks : List (Condition H)) (hu : c.univ.objects = d.univ.objects) (hs : c.source = d.source)
    (hk : ∀ h ∈ hostsOfAll ks, HostCondition.select h c = HostCondition.select h d) (found : List Object) :
    narrow c found ks = narrow d found ks := by
  match ks with
  | [] => rfl
  | next :: rest =>
    have en := select_congr next hu hs fun h m => hk h (List.mem_append_left _ m)
    simp only [narrow, en]
    cases select d next with
    | error e => rfl
    | ok others => exact narrow_congr rest hu hs (fun h m => hk h (List.mem_append_right _ m)) _

end

end Condition

/-- The current value counts only if a statistic reads it. -/
theorem Node.eval_congr_of_hosts {H : Type} [HostCondition H] {t : Ty} (n : Node H t) {c d : Context}
    (hu : c.univ.objects = d.univ.objects) (hsource : c.source = d.source) (hseed : n.draws = true → c.seed = d.seed)
    (hx : ∀ x ∈ n.vars, x.lookup c = x.lookup d)
    (hc : ∀ s ∈ n.statistics, s.ReadsCurrent → c.current = d.current)
    (hk : ∀ s ∈ n.statistics, ∀ h ∈ s.condition.hosts, HostCondition.select h c = HostCondition.select h d) :
    n.eval c = n.eval d := by
  refine n.eval_congr hseed hx fun s hs t => ?_
  exact s.eval_congr hu (hc s hs) (s.condition.select_congr hu hsource (hk s hs)) t

/-! ## The local candidate -/

/-- The flag of the local candidate can be relied on between two contexts in which every
    condition of the host selects the same. -/
theorem Node.eval_setSlot_localCandidate {H : Type} [HostCondition H] {t : Ty} (n : Node H t)
    (hn : n.independence.localCandidate = true) (c : Context) (o : Option Object)
    (hk : ∀ s ∈ n.statistics, ∀ h ∈ s.condition.hosts,
      HostCondition.select h (c.setSlot .localCandidate o) = HostCondition.select h c) :
    n.eval (c.setSlot .localCandidate o) = n.eval c := by
  have h : (c.setSlot .localCandidate o).AgreeOff n.independence c := by
    refine ⟨rfl, rfl, rfl, fun s hs => ?_⟩
    cases s with
    | localCandidate => exact absurd (hn.symm.trans hs) (by decide)
    | _ => rfl
  exact n.eval_congr_of_hosts rfl rfl (fun _ => rfl) (fun x hx => x.lookup_eq (n.agreeOff_var h x hx)) (fun _ _ _ => rfl) hk

/-- A condition of a host that selects the object in a slot, if there is one. -/
structure InSlot where
  slot : Slot

/-- None of the flags is claimed. -/
instance : HostCondition InSlot where
  select k c := .ok (c.slot k.slot).toList
  script k := k.slot.name
  describe k _ := k.slot.label
  same k k' := k.slot == k'.slot

theorem InSlot.honoursFlags (k : InSlot) : (Condition.host k).HonoursFlags := by
  intro s hs
  cases s <;> cases hs

def countInSlot (s : Slot) : Node InSlot .int := .statistic (.count (.host ⟨s⟩))

/-- A host looks at the source, and the local candidate comes and goes. -/
theorem Node.eval_setSlot_localCandidate_source :
    let n := countInSlot .source
    let c := Context.forSource .empty scout
    n.independence.localCandidate = true ∧
      (∀ s ∈ n.statistics, ∀ h ∈ s.condition.hosts,
        HostCondition.select h (c.setSlot .localCandidate (some outpost)) = HostCondition.select h c) ∧
      n.eval c = .ok 1 ∧ n.eval (c.setSlot .localCandidate (some outpost)) = n.eval c := by
  intro n c
  have hk : ∀ s ∈ n.statistics, ∀ h ∈ s.condition.hosts,
      HostCondition.select h (c.setSlot .localCandidate (some outpost)) = HostCondition.select h c := by
    intro s hs h hh
    obtain rfl := List.mem_singleton.mp hs
    obtain rfl := List.mem_singleton.mp hh
    rfl
  exact ⟨rfl, hk, rfl, n.eval_setSlot_localCandidate rfl c (some outpost) hk⟩

/-- That conditions keep what their own flags promise is not enough. -/
theorem local_flag_not_honoured :
    ¬ ∀ {H : Type} [HostCondition H], (∀ k : H, (Condition.host k).HonoursFlags) →
        ∀ {t : Ty} (n : Node H t), n.independence.localCandidate = true →
          ∀ c o, n.eval (c.setSlot .localCandidate o) = n.eval c := by
  intro h
  have e := h InSlot.honoursFlags (countInSlot .localCandidate) rfl .empty (some scout)
  have here : (countInSlot .localCandidate).eval (Context.empty.setSlot .localCandidate (some scout)) = .ok 1 := rfl
  have gone : (countInSlot .localCandidate).eval .empty = .ok 0 := rfl
  rw [here, gone] at e
  exact absurd (Except.ok.inj e) (by decide)

/-! ## The effect target and the current value -/

theorem Variable.reference_of_value (x : Variable) (h : x.path = [valueSegment]) :
    x.reference = .slot .effectTarget := by
  have e : x.head = valueSegment := by simp only [head, h, List.head_cons]
  rw [reference, e]
  rfl

/-- The flag of the effect target covers the current value as well, if no statistic reads it. -/
theorem Node.eval_forEffect {t : Ty} (n : Node Empty t) (hn : n.independence.effectTarget = true)
    (hs : ∀ s ∈ n.statistics, ¬ s.ReadsCurrent) (u : Universe) (source : Option Object) (o o' : Object)
    (v v' : Value) : n.eval (.forEffect u source o v) = n.eval (.forEffect u source o' v') := by
  refine n.eval_congr_of_hosts rfl rfl (fun _ => rfl) ?_ (fun s h hr => absurd hr (hs s h)) (fun _ _ => nofun)
  intro x hx
  have hr : x.reference ≠ .slot .effectTarget := n.reference_ne (s := .effectTarget) hn x hx
  have hp : x.path ≠ [valueSegment] := fun h => hr (x.reference_of_value h)
  refine x.toPath.lookupAs_congr rfl (fun h => absurd h hp) (fun _ => rfl) ?_
  refine Context.object?_eq_of_slot fun s hslot => ?_
  cases s with
  | effectTarget => exact absurd hslot hr
  | _ => rfl

/-- A statistic over the path of a variable. -/
def Statistic.ofVariable (r : Reduction) (x : Variable) (condition : BuiltinCondition) : Statistic Empty :=
  ⟨r, x.path, condition, x.segment_ne, fun _ => x.path_ne_nil⟩

/-- `sourceTwice` and the number of all objects, counted over a property that is not read. -/
def sourceAndAll : Node Empty .int := .binary .plus sourceTwice (.statistic (.ofVariable .count .value .all))

theorem Node.eval_forEffect_sourceAndAll :
    let u := Universe.empty.withObject outpost
    sourceAndAll.independence.effectTarget = true ∧ (∀ s ∈ sourceAndAll.statistics, ¬ s.ReadsCurrent) ∧
      sourceAndAll.eval (.forEffect u (some scout) outpost (.int 1)) = .ok 15 ∧
      sourceAndAll.eval (.forEffect u (some scout) outpost (.int 1))
        = sourceAndAll.eval (.forEffect u (some scout) scout (.text "none")) := by
  intro u
  have hs : ∀ s ∈ sourceAndAll.statistics, ¬ s.ReadsCurrent := by decide
  exact ⟨rfl, hs, rfl, sourceAndAll.eval_forEffect rfl hs u (some scout) outpost scout (.int 1) (.text "none")⟩

/-- The current value, once for every object. -/
def currentOfAll : Node Empty .int := .statistic (.ofVariable .sum .value .all)

/-- A statistic can read the current value without clearing the flag of the effect target. -/
theorem target_flag_not_honoured :
    ¬ ∀ {t : Ty} (n : Node Empty t), n.independence.effectTarget = true →
        ∀ u source o o' v v', n.eval (.forEffect u source o v) = n.eval (.forEffect u source o' v') := by
  intro h
  have e := h currentOfAll rfl (Universe.empty.withObject outpost) none outpost outpost (.int 1) (.int 2)
  have one : currentOfAll.eval (.forEffect (Universe.empty.withObject outpost) none outpost (.int 1)) = .ok 1 := rfl
  have two : currentOfAll.eval (.forEffect (Universe.empty.withObject outpost) none outpost (.int 2)) = .ok 2 := rfl
  rw [one, two] at e
  exact absurd (Except.ok.inj e) (by decide)

end RuleExpr
