/-
  RuleExpr.Proofs.Reduction.MatchOrder — ints over the same objects in another order.

  A list of ids selects the objects that have them, in its order. A permutation of the list selects
  the same objects (`Statistic.exists_sample_perm`), so a statistic reduces the same ints, in another
  order (`Statistic.eval_of_read`). Numbers, extremes and their difference do not depend on that at
  all (`Ty.reduce_perm`). A total does: it comes to the same integer, but it is given only if
  everything on the way to it fits, and the way goes along the order (`Statistic.order_of_matches`).
  So it may be given in one order and refused in another (`Statistic.order_of_matches_overflow`).
-/

import RuleExpr.Proofs.Reduction.Exact
import RuleExpr.Proofs.Reduction.Extreme
import RuleExpr.Proofs.Sampling

namespace RuleExpr

/-! ## Reductions of permuted ints -/

theorem Ty.reduce_perm {r : Reduction} (hr : r ∈ [.count, .any, .uniqueCount, .max, .min, .spread]) {vs ws : List Int32}
    (h : vs.Perm ws) (n : Nat) : reduce .int r vs n = reduce .int r ws n := by
  have hgreatest : greatest .int vs = greatest .int ws := greatest_perm (t := .int) nofun h
  have hleast : least .int vs = least .int ws := least_perm (t := .int) nofun h
  show numericReduce (t := .int) r vs n = numericReduce (t := .int) r ws n
  cases r with
  | count => rfl
  | any => rfl
  | uniqueCount =>
    have hkeys : (vs.map (key .int)).eraseDups.length = (ws.map (key .int)).eraseDups.length :=
      calc _ = (vs.map (key .int)).dedup.length := (eraseDups_perm_dedup _).length_eq
        _ = (ws.map (key .int)).dedup.length := (h.map _).dedup.length_eq
        _ = _ := (eraseDups_perm_dedup _).length_eq.symm
    exact congrArg (Numeric.ofCount (t := .int)) hkeys
  | max | min | spread =>
    unfold numericReduce
    simp only [hgreatest, hleast]
  | sum | mean | rms | mode | stdev | product => simp at hr

namespace Statistic

variable {H : Type}

/-- The statistic of the objects with these ids. -/
def within (s : Statistic H) (ids : List ObjectId) : Statistic H := { s with condition := .withinIds ids }

/-- The property has ints on the objects with these ids. -/
def ReadsInts (s : Statistic H) (c : Context) (ids : List ObjectId) (read : Object → Int32) : Prop :=
  ∀ o ∈ c.univ.toList, o.id ∈ ids → lookup s.property c o >>= Value.readAs .int = .ok (read o)

variable [HostCondition H] {s : Statistic H} {c : Context} {ids ids' : List ObjectId} {read : Object → Int32}

/-! ## Samples -/

theorem exists_sample_perm (s : Statistic H) (c : Context) (hids : ids.Perm ids') :
    ∃ os os', (s.within ids).sample c = .ok os ∧ (s.within ids').sample c = .ok os' ∧ os.Perm os' ∧
      ∀ o ∈ os, o ∈ c.univ.toList ∧ o.id ∈ ids := by
  have hfound : ∀ o ∈ ids.filterMap c.univ.object?, o ∈ c.univ.toList ∧ o.id ∈ ids := by
    intro o ho
    obtain ⟨id, hid, hobject⟩ := List.mem_filterMap.mp ho
    obtain ⟨hu, rfl⟩ := Universe.object?_eq_some_iff.mp hobject
    exact ⟨hu, hid⟩
  have hunique : ∀ o ∈ ids.filterMap c.univ.object?, ∀ p ∈ ids.filterMap c.univ.object?, o.id = p.id → o = p := by
    intro o ho p hp
    exact Universe.eq_of_id_eq (hfound o ho).1 (hfound p hp).1
  have honce := distinct_perm (hids.filterMap c.univ.object?) hunique
  have htwice := distinct_perm honce fun o ho p hp =>
    hunique o (mem_of_mem_distinct ho) p (mem_of_mem_distinct hp)
  exact ⟨_, _, rfl, rfl, htwice, fun o ho => hfound o (mem_of_mem_distinct (mem_of_mem_distinct ho))⟩

theorem eval_of_read {os : List Object} (hs : s.sample c = .ok os)
    (hread : ∀ o ∈ os, lookup s.property c o >>= Value.readAs .int = .ok (read o)) :
    s.eval .int c = Ty.reduce .int s.reduction (os.map read) os.length := by
  have heval : s.eval .int c = s.values .int c os >>= fun vs => Ty.reduce .int s.reduction vs os.length := by
    have hsupports : Ty.int.supports s.reduction = true := rfl
    rw [eval, if_pos hsupports, hs]
    rfl
  rw [heval, values]
  cases hn : s.reduction.needsValues with
  | true =>
    have hvalues : os.mapM (fun o => lookup s.property c o >>= Value.readAs .int) = .ok (os.map read) := by
      refine Outcome.mapM_eq_ok ?_
      rw [List.forall₂_map_right_iff, List.forall₂_same]
      exact hread
    rw [if_pos rfl, hvalues]
    rfl
  | false =>
    rw [if_neg Bool.false_ne_true]
    exact Ty.reduce_of_number (t := .int) hn [] (os.map read) os.length

/-! ## Totals in two orders -/

/-- Where a property reads as an int, numbers, extremes and spread of it over permuted ids are the
    same. Totals over either list are decided by what is on the way to them in its order, and come to
    the same integer. -/
theorem order_of_matches (s : Statistic H) (c : Context) (ids ids' : List ObjectId) (hids : ids.Perm ids')
    (read : Object → Int32) (hread : s.ReadsInts c ids read) :
    ∃ os os', (s.within ids).sample c = .ok os ∧ (s.within ids').sample c = .ok os' ∧ os.Perm os' ∧
      (s.reduction ∈ [.count, .any, .uniqueCount, .max, .min, .spread] →
        (s.within ids).eval .int c = (s.within ids').eval .int c) ∧
      ∀ T, s.reduction.total? = some T →
        let ints := os.map fun o => (read o).toInt
        let ints' := os'.map fun o => (read o).toInt
        T.Decides ints ((s.within ids).eval .int c) ∧ T.Decides ints' ((s.within ids').eval .int c) ∧
          T.value ints = T.value ints' := by
  obtain ⟨os, os', hs, hs', hos, hmem⟩ := exists_sample_perm s c hids
  have hreads : ∀ o ∈ os, lookup s.property c o >>= Value.readAs .int = .ok (read o) := by
    intro o ho
    exact hread o (hmem o ho).1 (hmem o ho).2
  have heval : (s.within ids).eval .int c = Ty.reduce .int s.reduction (os.map read) os.length := eval_of_read hs hreads
  have heval' : (s.within ids').eval .int c = Ty.reduce .int s.reduction (os'.map read) os'.length :=
    eval_of_read hs' fun o ho => hreads o (hos.mem_iff.mpr ho)
  refine ⟨os, os', hs, hs', hos, fun hr => ?_, fun T hT => ⟨?_, ?_, ?_⟩⟩
  · rw [heval, heval', ← hos.length_eq]
    exact Ty.reduce_perm hr (hos.map read) os.length
  · have hdecides := Total.decides_reduce hT (os.map read) os.length
    rwa [← heval, List.map_map] at hdecides
  · have hdecides := Total.decides_reduce hT (os'.map read) os'.length
    rwa [← heval', List.map_map] at hdecides
  · exact Total.value_perm hT (hos.map _)

/-- Of two objects, one of them named twice, and an id that no object has. -/
theorem order_of_matches_repeated :
    let c := Context.forSource ((Universe.empty.withObject outpost).withObject scout) scout
    let s : Statistic Empty := .ofIds .sum .all
    let ids : List ObjectId := [7, 3, 7, 4]
    let ids' : List ObjectId := [3, 4, 7, 7]
    ids.Perm ids' ∧ s.ReadsInts c ids Object.id ∧ (s.within ids').sample c = .ok [outpost, scout] ∧
      (s.within ids').eval .int c = .ok 10 := by
  intro c s ids ids'
  have hids : ids.Perm ids' := by decide
  have hread : s.ReadsInts c ids Object.id := fun _ _ _ => rfl
  obtain ⟨os, os', _, hs', _, _, htotal⟩ := order_of_matches s c ids ids' hids Object.id hread
  have hsample : (s.within ids').sample c = .ok [outpost, scout] := rfl
  obtain rfl := Except.ok.inj (hs'.symm.trans hsample)
  obtain ⟨_, hdecides, _⟩ := htotal _ rfl
  have hfits : ∀ p ∈ [(3 : Int), 7].inits, Has32Bits p.sum := by decide
  refine ⟨hids, hread, hsample, ?_⟩
  generalize (s.within ids').eval .int c = outcome at hdecides
  cases outcome with
  | ok i => exact congrArg Except.ok (Int32.toInt_inj.mp hdecides.2)
  | error e => exact absurd hfits hdecides.1

/-- Up to one above the greatest int and down again, or down first. -/
theorem order_of_matches_overflow :
    let numbered (id : ObjectId) : Object := { scout with id }
    let u := ((Universe.empty.withObject (numbered 2147483647)).withObject (numbered 1)).withObject (numbered (-1))
    let c : Context := { univ := u }
    let s : Statistic Empty := .ofIds .sum .all
    let ids : List ObjectId := [2147483647, 1, -1]
    let ids' : List ObjectId := [2147483647, -1, 1]
    ids.Perm ids' ∧ s.ReadsInts c ids Object.id ∧
      (s.within ids).eval .int c = .error (.arithmetic (.reductionOverflow .sum .int)) ∧
      (s.within ids').eval .int c = .ok 2147483647 := by
  intro numbered u c s ids ids'
  refine ⟨by decide, fun _ _ _ => rfl, ?_, ?_⟩
  · decide +kernel
  · decide +kernel

end Statistic

end RuleExpr
