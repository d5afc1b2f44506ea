/-
  RuleExpr.Proofs.Sampling — what a statistic makes of the objects that its condition selects.

  Only the first object of each id counts. `Reduced` says what the outcome over these objects is:
  a reduction of their number, or of the values that a path leads to from each, or the failure of
  the first object from which it leads to none. There is one such outcome, and evaluation finds it
  (`Statistic.eval_iff_reduced`). So two statistics of one reduction and property agree as soon as
  their conditions select the same objects in this sense, in whatever contexts over one universe.

  The path must not be `Value` alone, which reads the context instead of the objects.
-/

import Mathlib.Data.List.Forall2
import RuleExpr.Proofs.Distinct
import RuleExpr.Proofs.Independence

namespace RuleExpr

/-! ## Lists of outcomes -/

namespace Outcome

variable {α β : Type} {l : List α} {f : α → Outcome β}

theorem mapM_eq_ok {bs : List β} (h : List.Forall₂ (fun a b => f a = .ok b) l bs) : l.mapM f = .ok bs := by
  induction h with
  | nil => rfl
  | cons ha _ ih =>
    rw [List.mapM_cons, ha, ih]
    rfl

theorem mapM_eq_error {before after : List α} {a : α} {e : Error} (hl : l = before ++ a :: after)
    (hbefore : ∀ x ∈ before, ∃ b, f x = .ok b) (ha : f a = .error e) : l.mapM f = .error e := by
  subst hl
  induction before with
  | nil =>
    rw [List.nil_append, List.mapM_cons, ha]
    rfl
  | cons x before ih =>
    obtain ⟨b, hb⟩ := hbefore x List.mem_cons_self
    rw [List.cons_append, List.mapM_cons, hb, ih fun y hy => hbefore y (List.mem_cons_of_mem x hy)]
    rfl

/-- All outcomes are values, or there is a first failure. -/
theorem forall₂_or_first_error (l : List α) (f : α → Outcome β) :
    (∃ bs, List.Forall₂ (fun a b => f a = .ok b) l bs) ∨
      ∃ before a after e, l = before ++ a :: after ∧ (∀ x ∈ before, ∃ b, f x = .ok b) ∧ f a = .error e := by
  induction l with
  | nil => exact .inl ⟨[], .nil⟩
  | cons a l ih =>
    cases ha : f a with
    | error e => exact .inr ⟨[], a, l, e, rfl, nofun, ha⟩
    | ok b =>
      rcases ih with ⟨bs, hbs⟩ | ⟨before, x, after, e, rfl, hbefore, hx⟩
      · exact .inl ⟨b :: bs, .cons ha hbs⟩
      · refine .inr ⟨a :: before, x, after, e, rfl, fun y hy => ?_, hx⟩
        rcases List.mem_cons.mp hy with rfl | hy
        · exact ⟨b, ha⟩
        · exact hbefore y hy

end Outcome

/-! ## The outcome of a reduction -/

theorem Ty.reduce_of_number {t : Ty} {r : Reduction} (hr : r.needsValues = false) (vs vs' : List t.Carrier) (n : Nat) :
    t.reduce r vs n = t.reduce r vs' n := by
  cases r with
  | count | any => cases t <;> rfl
  | _ => cases hr

/-- The outcome of a reduction over objects that count, if `read` gives their values. -/
inductive Reduced (t : Ty) (r : Reduction) (read : Object → Outcome t.Carrier) (os : List Object) :
    Outcome t.Carrier → Prop where
  /-- Of the number of objects; nothing is read. -/
  | number (hr : r.needsValues = false) (vs : List t.Carrier) : Reduced t r read os (t.reduce r vs os.length)
  | values {vs : List t.Carrier} (hr : r.needsValues = true) (hvs : List.Forall₂ (fun o v => read o = .ok v) os vs) :
      Reduced t r read os (t.reduce r vs os.length)
  /-- By the first object that has no value. -/
  | failure {before after : List Object} {o : Object} {e : Error} (hr : r.needsValues = true)
      (hos : os = before ++ o :: after) (hbefore : ∀ p ∈ before, ∃ v, read p = .ok v) (ho : read o = .error e) :
      Reduced t r read os (.error e)

namespace Reduced

variable {t : Ty} {r : Reduction} {read : Object → Outcome t.Carrier} {os : List Object} {out : Outcome t.Carrier}

theorem exists_reduced (t : Ty) (r : Reduction) (read : Object → Outcome t.Carrier) (os : List Object) :
    ∃ out, Reduced t r read os out := by
  cases hr : r.needsValues with
  | false => exact ⟨_, .number hr []⟩
  | true =>
    rcases Outcome.forall₂_or_first_error os read with ⟨vs, hvs⟩ | ⟨before, o, after, e, hos, hbefore, ho⟩
    · exact ⟨_, .values hr hvs⟩
    · exact ⟨_, .failure hr hos hbefore ho⟩

end Reduced

/-! ## Evaluation -/

/-- What a path leads to from an object, read at a type. -/
def Universe.read (u : Universe) (t : Ty) (path : List String) (o : Object) : Outcome t.Carrier :=
  u.resolve o path >>= Value.readAs t

namespace Statistic

variable {H : Type} [HostCondition H] {t : Ty} {s : Statistic H} {c : Context} {os : List Object}
  {out : Outcome t.Carrier}

theorem eval_of_select (hr : t.supports s.reduction = true) (hs : s.condition.select c = .ok os) :
    s.eval t c = s.values t c (firstOfEachId os) >>= fun vs => t.reduce s.reduction vs (firstOfEachId os).length := by
  rw [← distinct_eq_firstOfEachId, eval, if_pos hr, sample, hs]
  rfl

omit [HostCondition H] in
theorem values_eq_mapM (hp : s.property ≠ [valueSegment]) (hr : s.reduction.needsValues = true) :
    s.values t c os = os.mapM (c.univ.read t s.property) := by
  have hread : (fun o => lookup s.property c o >>= Value.readAs t) = c.univ.read t s.property := by
    funext o
    rw [lookup_eq, if_neg hp, Universe.read]
  rw [values, if_pos hr, hread]

theorem eval_of_reduced (hr : t.supports s.reduction = true) (hp : s.property ≠ [valueSegment])
    (hs : s.condition.select c = .ok os) (h : Reduced t s.reduction (c.univ.read t s.property) (firstOfEachId os) out) :
    s.eval t c = out := by
  rw [eval_of_select hr hs]
  cases h with
  | number hn vs =>
    rw [values, hn]
    exact Ty.reduce_of_number hn [] vs _
  | values hn hvs =>
    rw [values_eq_mapM hp hn, Outcome.mapM_eq_ok hvs]
    rfl
  | failure hn hos hbefore ho =>
    rw [values_eq_mapM hp hn, Outcome.mapM_eq_error hos hbefore ho]
    rfl

theorem eval_iff_reduced (hr : t.supports s.reduction = true) (hp : s.property ≠ [valueSegment])
    (hs : s.condition.select c = .ok os) :
    s.eval t c = out ↔ Reduced t s.reduction (c.univ.read t s.property) (firstOfEachId os) out := by
  refine ⟨fun h => ?_, eval_of_reduced hr hp hs⟩
  obtain ⟨out', h'⟩ := Reduced.exists_reduced t s.reduction (c.univ.read t s.property) (firstOfEachId os)
  rwa [← h, eval_of_reduced hr hp hs h']

/-- Statistics of one reduction and property over one universe have the same outcome if their
    conditions select the same objects, of those with one id only the first. What else the two
    contexts hold makes no difference. -/
theorem determined_by_first_matches {H H' : Type} [HostCondition H] [HostCondition H'] {t : Ty} (s : Statistic H)
    (s' : Statistic H') (hreduction : s.reduction = s'.reduction) (hproperty : s.property = s'.property)
    (hr : t.supports s.reduction = true) (hp : s.property ≠ [valueSegment]) (c c' : Context) (hu : c.univ = c'.univ)
    (os os' : List Object) (hs : s.condition.select c = .ok os) (hs' : s'.condition.select c' = .ok os')
    (h : firstOfEachId os = firstOfEachId os') :
    s.eval t c = s'.eval t c' ∧
      ∀ out, s.eval t c = out ↔ Reduced t s.reduction (c.univ.read t s.property) (firstOfEachId os) out := by
  refine ⟨?_, fun out => eval_iff_reduced hr hp hs⟩
  have hout : Reduced t s.reduction (c.univ.read t s.property) (firstOfEachId os) (s.eval t c) :=
    (eval_iff_reduced hr hp hs).mp rfl
  rw [hreduction, hproperty, hu, h] at hout
  exact (eval_of_reduced (hreduction ▸ hr) (hproperty ▸ hp) hs' hout).symm

end Statistic

/-! ## A total that stops at the second object -/

/-- A condition of a host that lists objects, some of them perhaps again or out of date. -/
structure Listed where
  found : List Object

instance : HostCondition Listed where
  select k _ := .ok k.found
  script _ := "Listed"
  describe _ _ := "listed"
  same k k' := k.found == k'.found

def laden : Object := { scout with properties := TextMap.set ∅ "Cargo" (.int 4) }

def totalCargo {H : Type} (k : Condition H) : Statistic H := ⟨.sum, ["Cargo"], k, by decide, fun _ => List.cons_ne_nil _ _⟩

/-- The list of the host repeats an id with an object that has no cargo. The outpost has none
    either, and counts. -/
theorem Statistic.determined_by_first_matches_cargo :
    let u := (Universe.empty.withObject laden).withObject outpost
    let c := Context.forEffect u (some scout) outpost (.int 1)
    let c' := ({ univ := u, seed := 5 } : Context).nested scout
    let s := totalCargo (.withinIds [7, 3, 7] : BuiltinCondition)
    let s' := totalCargo (.host (Listed.mk [laden, outpost, scout]))
    Ty.int.supports s.reduction = true ∧ s.property ≠ [valueSegment] ∧ c.univ = c'.univ ∧
      s.condition.select c = .ok [laden, outpost] ∧ s'.condition.select c' = .ok [laden, outpost, scout] ∧
      firstOfEachId [laden, outpost] = firstOfEachId [laden, outpost, scout] ∧
      s.eval .int c = .error (.property (.unknown 3 "Cargo")) ∧ s.eval .int c = s'.eval .int c' := by
  intro u c c' s s'
  have hp : s.property ≠ [valueSegment] := by decide
  have h := s.determined_by_first_matches s' rfl rfl (t := .int) rfl hp c c' rfl _ _ rfl rfl rfl
  exact ⟨rfl, hp, rfl, rfl, rfl, rfl, rfl, h.1⟩

end RuleExpr
