/-
  RuleExpr.Proofs.Intersection — intersections of intersections.

  The operands of an intersection do not play one part: the first gives the objects, with their order
  and repetitions, and the others take away by ids. An intersection among the operands may be either,
  and still it can be replaced by its own operands, if it has any (`Condition.and_flatten`). As a
  first operand it begins what the others go on with (`select_and_append`). As a later one it takes
  away what one of its operands does, since it is by ids again that these have narrowed each other
  (`keep_keep`, `narrow_and`). Conditions of the host are evaluated in the same order, so that the
  first failure is the same.

  The empty intersection selects nothing, and cannot be left out.
-/

import RuleExpr.Proofs.Independence
import RuleExpr.Proofs.Outcome

namespace RuleExpr.Condition

variable {H : Type} [HostCondition H] {c : Context}

/-! ## What is selected -/

omit [HostCondition H] in
theorem keep_keep (os others more : List Object) : keep (keep os others) more = keep os (keep others more) := by
  unfold keep
  rw [List.filter_filter]
  refine List.filter_congr fun o _ => ?_
  rw [Bool.eq_iff_iff]
  simp only [Bool.and_eq_true, List.any_eq_true, List.mem_filter, beq_iff_eq]
  constructor
  · rintro ⟨⟨q, hq, hqo⟩, p, hp, hpo⟩
    exact ⟨p, ⟨hp, q, hq, hqo.trans hpo.symm⟩, hpo⟩
  · rintro ⟨p, ⟨hp, q, hq, hqp⟩, hpo⟩
    exact ⟨⟨q, hq, hqp.trans hpo⟩, p, hp, hpo⟩

theorem narrow_append (found : List Object) (ks ls : List (Condition H)) :
    narrow c found (ks ++ ls) = narrow c found ks >>= fun found => narrow c found ls := by
  induction ks generalizing found with
  | nil => rfl
  | cons next rest ih =>
    rw [List.cons_append, narrow_cons, narrow_cons, bind_assoc]
    simp only [ih]

theorem select_and_append {ks : List (Condition H)} (hks : ks ≠ []) (ls : List (Condition H)) :
    (and (ks ++ ls)).select c = (and ks).select c >>= fun found => narrow c found ls := by
  obtain ⟨first, rest, rfl⟩ := List.exists_cons_of_ne_nil hks
  rw [List.cons_append, select_and_cons, select_and_cons, bind_assoc]
  simp only [narrow_append]

/-- Objects taken away beforehand may as well be taken away in the end. -/
theorem narrow_keep (found others : List Object) (ks : List (Condition H)) :
    narrow c (keep found others) ks = (narrow c others ks).map (keep found) := by
  induction ks generalizing others with
  | nil => rfl
  | cons next rest ih =>
    rw [narrow_cons, narrow_cons]
    cases select c next with
    | error e => rfl
    | ok more => rw [Outcome.ok_bind, Outcome.ok_bind, keep_keep, ih]

theorem narrow_and (found : List Object) {ks : List (Condition H)} (hks : ks ≠ []) :
    narrow c found [and ks] = narrow c found ks := by
  obtain ⟨first, rest, rfl⟩ := List.exists_cons_of_ne_nil hks
  rw [narrow_cons, narrow_cons, select_and_cons, bind_assoc]
  cases select c first with
  | error e => rfl
  | ok others =>
    rw [Outcome.ok_bind, Outcome.ok_bind, narrow_keep]
    cases narrow c others rest <;> rfl

theorem select_and_flatten (xs zs : List (Condition H)) {ys : List (Condition H)} (hys : ys ≠ []) :
    (and (xs ++ [and ys] ++ zs)).select c = (and (xs ++ ys ++ zs)).select c := by
  by_cases hxs : xs = []
  · -- the inner intersection is the first operand, and gives the objects
    subst hxs
    rw [List.nil_append, List.nil_append, List.singleton_append, select_and_cons, select_and_append hys]
  · -- it comes later, and takes some away
    rw [List.append_assoc, List.append_assoc, select_and_append hxs, select_and_append hxs]
    simp only [narrow_append, narrow_and _ hys]

/-! ## What it depends on -/

theorem independenceOfAll_append (ks ls : List (Condition H)) :
    independenceOfAll (ks ++ ls) = (independenceOfAll ks).and (independenceOfAll ls) := by
  induction ks with
  | nil => exact (ConditionIndependence.full_and _).symm
  | cons first rest ih =>
    rw [List.cons_append, independenceOfAll, independenceOfAll, ih, ConditionIndependence.and_assoc]

theorem independence_and_flatten (xs ys zs : List (Condition H)) :
    (and (xs ++ [and ys] ++ zs)).independence = (and (xs ++ ys ++ zs)).independence := by
  simp only [independence, independenceOfAll_append, independenceOfAll, ConditionIndependence.and_full]

/-- An intersection can take the place of its operands, first ones or later ones, and they its own.
    What the host's conditions select and how they fail makes no difference. -/
theorem and_flatten (xs zs : List (Condition H)) {ys : List (Condition H)} (hys : ys ≠ []) :
    (∀ c, (and (xs ++ [and ys] ++ zs)).select c = (and (xs ++ ys ++ zs)).select c) ∧
      (and (xs ++ [and ys] ++ zs)).independence = (and (xs ++ ys ++ zs)).independence :=
  ⟨fun _ => select_and_flatten xs zs hys, independence_and_flatten xs ys zs⟩

/-! ## Recorded outcomes -/

/-- A condition of a host, with the outcome that it has in every context. -/
structure Recorded where
  outcome : Outcome (List Object)

instance : HostCondition Recorded where
  select k _ := k.outcome
  script _ := "Recorded"
  describe _ _ := "recorded"
  same _ _ := false

/-- An object is found twice, and another time under a name that it has no longer; of two failures
    the first counts. -/
theorem and_flatten_recorded :
    let found (os : List Object) : Condition Recorded := host ⟨.ok os⟩
    let fails (text : String) : Condition Recorded := host ⟨.error (.other text)⟩
    let twice := found [scout, outpost, scout]
    let narrowed := [found [outpost, { scout with name := "Ranger" }], source]
    let failing := [fails "first", fails "second"]
    let c := Context.forSource .empty scout
    narrowed ≠ [] ∧ failing ≠ [] ∧
      (and ([twice] ++ [and narrowed] ++ [])).select c = .ok [scout, scout] ∧
      (and ([twice] ++ narrowed ++ [])).select c = .ok [scout, scout] ∧
      (and ([] ++ [and failing] ++ [fails "third"])).select c = .error (.other "first") ∧
      (and ([] ++ failing ++ [fails "third"])).select c = .error (.other "first") ∧
      (and ([all] ++ [and narrowed.tail] ++ [all])).independence = ⟨true, true, false⟩ ∧
      (and ([all] ++ narrowed.tail ++ [all])).independence = ⟨true, true, false⟩ := by
  intro found fails twice narrowed failing c
  have hnarrowed : narrowed ≠ [] := List.cons_ne_nil _ _
  have hfailing : failing ≠ [] := List.cons_ne_nil _ _
  have hsource : narrowed.tail ≠ [] := List.cons_ne_nil _ _
  have hselect : (and ([twice] ++ [and narrowed] ++ [])).select c = .ok [scout, scout] := rfl
  have herror : (and ([] ++ [and failing] ++ [fails "third"])).select c = .error (.other "first") := rfl
  have hflags : (and ([all] ++ [and narrowed.tail] ++ [all])).independence = ⟨true, true, false⟩ := rfl
  refine ⟨hnarrowed, hfailing, hselect, ?_, herror, ?_, hflags, ?_⟩
  · exact ((and_flatten [twice] [] hnarrowed).1 c).symm.trans hselect
  · exact ((and_flatten [] [fails "third"] hfailing).1 c).symm.trans herror
  · exact (and_flatten [all] [all] hsource).2.symm.trans hflags

end RuleExpr.Condition
