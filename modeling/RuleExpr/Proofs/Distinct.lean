/-
  RuleExpr.Proofs.Distinct — the objects that count in a statistic.

  Of a list of objects the first one of each id counts. These are objects of the list
  (`mem_of_mem_distinct`), with ids that differ (`nodup_distinct`), hence no more than there
  are ids (`length_distinct_le`). Where an id stands for one object they are all the objects of
  the list, whose order makes no difference then but to theirs (`distinct_perm`). By positions:
  an object is dropped just where its id has occurred earlier in the list
  (`distinct_eq_firstOfEachId`).
-/

import Mathlib.Algebra.Ring.Nat
import Mathlib.Data.Fintype.Card
import Mathlib.Data.List.Induction
import RuleExpr.Node.Eval

namespace RuleExpr

theorem mem_distinct_go {seen : List ObjectId} {os : List Object} {o : Object} (h : o ∈ distinct.go seen os) :
    o ∈ os ∧ o.id ∉ seen := by
  induction os generalizing seen with
  | nil => cases h
  | cons p rest ih =>
    unfold distinct.go at h
    split at h
    · obtain ⟨ho, hs⟩ := ih h
      exact ⟨List.mem_cons_of_mem p ho, hs⟩
    · next hp =>
      rcases List.mem_cons.mp h with rfl | h
      · exact ⟨List.mem_cons_self, fun hs => hp (List.contains_iff_mem.mpr hs)⟩
      · obtain ⟨ho, hs⟩ := ih h
        exact ⟨List.mem_cons_of_mem p ho, fun hs' => hs (List.mem_cons_of_mem p.id hs')⟩

theorem mem_of_mem_distinct {os : List Object} {o : Object} (h : o ∈ distinct os) : o ∈ os := (mem_distinct_go h).1

theorem nodup_distinct_go (seen : List ObjectId) (os : List Object) : ((distinct.go seen os).map Object.id).Nodup := by
  induction os generalizing seen with
  | nil => exact List.nodup_nil
  | cons p rest ih =>
    unfold distinct.go
    split
    · exact ih seen
    · refine List.nodup_cons.mpr ⟨fun hp => ?_, ih (p.id :: seen)⟩
      obtain ⟨q, hq, hid⟩ := List.mem_map.mp hp
      exact (mem_distinct_go hq).2 (hid ▸ List.mem_cons_self)

theorem nodup_distinct (os : List Object) : ((distinct os).map Object.id).Nodup := nodup_distinct_go [] os

/-! ## Objects that their ids determine -/

theorem exists_mem_distinct_go {seen : List ObjectId} {os : List Object} {o : Object} (ho : o ∈ os) (hs : o.id ∉ seen) :
    ∃ p ∈ distinct.go seen os, p.id = o.id := by
  induction os generalizing seen with
  | nil => cases ho
  | cons first rest ih =>
    unfold distinct.go
    split
    · next hfirst =>
      rcases List.mem_cons.mp ho with rfl | ho
      · exact absurd (List.contains_iff_mem.mp hfirst) hs
      · exact ih ho hs
    · by_cases hid : first.id = o.id
      · exact ⟨first, List.mem_cons_self, hid⟩
      · have hrest : o ∈ rest := (List.mem_cons.mp ho).resolve_left fun h => hid (h ▸ rfl)
        have hseen : o.id ∉ first.id :: seen := fun h => (List.mem_cons.mp h).elim (fun h => hid h.symm) hs
        obtain ⟨p, hp, hpid⟩ := ih hrest hseen
        exact ⟨p, List.mem_cons_of_mem first hp, hpid⟩

theorem mem_distinct_iff {os : List Object} (hids : ∀ o ∈ os, ∀ p ∈ os, o.id = p.id → o = p) {o : Object} :
    o ∈ distinct os ↔ o ∈ os := by
  refine ⟨mem_of_mem_distinct, fun ho => ?_⟩
  obtain ⟨p, hp, hid⟩ := exists_mem_distinct_go ho (List.not_mem_nil : o.id ∉ [])
  exact hids p (mem_of_mem_distinct hp) o ho hid ▸ hp

theorem distinct_perm {os ps : List Object} (h : os.Perm ps) (hids : ∀ o ∈ os, ∀ p ∈ os, o.id = p.id → o = p) :
    (distinct os).Perm (distinct ps) := by
  have hids' : ∀ o ∈ ps, ∀ p ∈ ps, o.id = p.id → o = p := by
    intro o ho p hp
    exact hids o (h.mem_iff.mpr ho) p (h.mem_iff.mpr hp)
  refine (List.perm_ext_iff_of_nodup (nodup_distinct os).of_map (nodup_distinct ps).of_map).mpr fun o => ?_
  rw [mem_distinct_iff hids, mem_distinct_iff hids', h.mem_iff]

/-! ## Numbers of objects -/

theorem length_le_of_nodup {ids : List ObjectId} (h : ids.Nodup) : ids.length ≤ 2 ^ 32 := by
  have hinj : Function.Injective fun id : ObjectId => id.toBitVec.toFin := by
    intro a b hab
    exact Int32.toBitVec_inj.mp (BitVec.toFin_inj.mp hab)
  calc ids.length = (ids.map fun id => id.toBitVec.toFin).length := (List.length_map _).symm
    _ ≤ Fintype.card (Fin (2 ^ 32)) := (h.map hinj).length_le_card
    _ = 2 ^ 32 := Fintype.card_fin _

theorem length_distinct_le (os : List Object) : (distinct os).length ≤ 2 ^ 32 := by
  have h := length_le_of_nodup (nodup_distinct os)
  rwa [List.length_map] at h

/-! ## Positions -/

/-- The objects of which no earlier one has the id. -/
def firstOfEachId (os : List Object) : List Object :=
  (os.zipIdx.filter fun p => p.1.id ∉ (os.take p.2).map Object.id).map Prod.fst

theorem firstOfEachId_concat (os : List Object) (o : Object) :
    firstOfEachId (os ++ [o]) = firstOfEachId os ++ if o.id ∈ os.map Object.id then [] else [o] := by
  have htake : ∀ p ∈ os.zipIdx, (os ++ [o]).take p.2 = os.take p.2 := by
    intro p hp
    have hlt : p.2 < os.length := by simpa using List.snd_lt_of_mem_zipIdx hp
    exact List.take_append_of_le_length (Nat.le_of_lt hlt)
  unfold firstOfEachId
  rw [List.zipIdx_append, List.filter_append, List.map_append]
  congr 1
  · exact congrArg _ (List.filter_congr fun p hp => by rw [htake p hp])
  · by_cases h : o.id ∈ os.map Object.id <;> simp [h]

theorem distinct_go_concat (seen : List ObjectId) (os : List Object) (o : Object) :
    distinct.go seen (os ++ [o])
      = distinct.go seen os ++ if o.id ∈ seen ∨ o.id ∈ os.map Object.id then [] else [o] := by
  induction os generalizing seen with
  | nil => by_cases h : o.id ∈ seen <;> simp [distinct.go, h]
  | cons p rest ih =>
    by_cases hp : p.id ∈ seen
    · have e : o.id ∈ seen ∨ o.id ∈ (p :: rest).map Object.id ↔ o.id ∈ seen ∨ o.id ∈ rest.map Object.id := by
        grind
      simp only [List.cons_append, distinct.go, List.contains_iff_mem, hp, if_true, ih, e]
    · have e : o.id ∈ seen ∨ o.id ∈ (p :: rest).map Object.id
          ↔ o.id ∈ p.id :: seen ∨ o.id ∈ rest.map Object.id := by
        grind
      simp only [List.cons_append, distinct.go, List.contains_iff_mem, hp, if_false, ih, e]

theorem distinct_eq_firstOfEachId (os : List Object) : distinct os = firstOfEachId os := by
  induction os using List.reverseRecOn with
  | nil => rfl
  | append_singleton os o ih =>
    rw [firstOfEachId_concat, ← ih, distinct, distinct_go_concat]
    simp only [List.not_mem_nil, false_or]
    rfl

end RuleExpr
