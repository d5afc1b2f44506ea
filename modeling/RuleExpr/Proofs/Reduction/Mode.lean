/-
  RuleExpr.Proofs.Reduction.Mode — the value that first reaches the highest count.

  The mode goes by keys: each value is counted with those before it that have its key, and takes the
  lead if that is more than the leader had when it took it. So the leader of what has been read
  stands where a key first occurred as often as any does in all of it (`FirstPeak`). One more value
  either sets a new peak, at its own place, or leaves the old one (`leads_concat`); hence the whole
  list ends with its leader (`leads_modeFrom`).

  The peak of a list is in one place only (`FirstPeak.unique`), and of the keys that occur most often
  the one there is complete first (`FirstPeak.complete`).
-/

import RuleExpr.Operation

namespace RuleExpr.Ty

/-! ## Peaks -/

/-- The key at position `i` has occurred `n` times up to there. -/
def OccursAt (ks : List Key) (n i : Nat) : Prop := ∃ k, ks[i]? = some k ∧ (ks.take (i + 1)).count k = n

/-- No key occurs more than `m` times, and `i` is the first position where one has occurred so often. -/
structure FirstPeak (ks : List Key) (m i : Nat) : Prop where
  most : ∀ k, ks.count k ≤ m
  reached : OccursAt ks m i
  first : ∀ j, OccursAt ks m j → i ≤ j

variable {ks : List Key} {k : Key} {m n i : Nat}

theorem OccursAt.lt_length (h : OccursAt ks n i) : i < ks.length := by
  obtain ⟨_, hk, _⟩ := h
  exact (List.getElem?_eq_some_iff.mp hk).1

theorem occursAt_concat_of_lt (hi : i < ks.length) : OccursAt (ks ++ [k]) n i ↔ OccursAt ks n i := by
  unfold OccursAt
  rw [List.getElem?_append_left hi, List.take_append_of_le_length (by omega)]

theorem occursAt_concat_length : OccursAt (ks ++ [k]) n ks.length ↔ ks.count k + 1 = n := by
  unfold OccursAt
  rw [List.getElem?_concat_length, List.take_of_length_le (by simp)]
  simp

/-- So many occurrences are first complete at one of them. -/
theorem exists_occursAt (hk : (ks.take n).count k = m) (hm : 0 < m) : ∃ j < n, OccursAt ks m j := by
  induction n with
  | zero =>
    simp at hk
    omega
  | succ n ih =>
    by_cases hlast : ks[n]? = some k
    · exact ⟨n, by omega, k, hlast, hk⟩
    · have hskip : (ks.take n).count k = m := by
        rw [List.take_add_one, List.count_append] at hk
        cases hkn : ks[n]? with
        | none => simpa [hkn] using hk
        | some k' =>
          have hne : k' ≠ k := fun h => hlast (h ▸ hkn)
          simpa [hkn, hne] using hk
      obtain ⟨j, hj, hoccurs⟩ := ih hskip
      exact ⟨j, by omega, hoccurs⟩

namespace FirstPeak

theorem exceeded (hm : ∀ k', ks.count k' ≤ m) (h : m < ks.count k + 1) :
    FirstPeak (ks ++ [k]) (ks.count k + 1) ks.length where
  most k' := by
    have hk' := hm k'
    rw [List.count_append, List.count_singleton]
    split <;> omega
  reached := occursAt_concat_length.mpr rfl
  first j hj := by
    apply Nat.le_of_not_lt
    intro hlt
    obtain ⟨k', -, hcount⟩ := (occursAt_concat_of_lt (by omega)).mp hj
    have hle := (List.take_sublist (j + 1) ks).count_le k'
    have hk' := hm k'
    omega

theorem kept (hp : FirstPeak ks m i) (h : ¬ m < ks.count k + 1) : FirstPeak (ks ++ [k]) m i where
  most k' := by
    have hk' := hp.most k'
    rw [List.count_append, List.count_singleton]
    split
    · next heq =>
      rw [beq_iff_eq] at heq
      subst heq
      omega
    · omega
  reached := (occursAt_concat_of_lt hp.reached.lt_length).mpr hp.reached
  first j hj := by
    by_cases hlt : j < ks.length
    · exact hp.first j ((occursAt_concat_of_lt hlt).mp hj)
    · have hi := hp.reached.lt_length
      omega

theorem unique {m' i' : Nat} (hp : FirstPeak ks m i) (hp' : FirstPeak ks m' i') : m = m' ∧ i = i' := by
  obtain ⟨k, -, hk⟩ := hp.reached
  obtain ⟨k', -, hk'⟩ := hp'.reached
  have hle := (List.take_sublist (i + 1) ks).count_le k
  have hle' := (List.take_sublist (i' + 1) ks).count_le k'
  have hmost := hp.most k'
  have hmost' := hp'.most k
  obtain rfl : m = m' := by omega
  have hfirst := hp.first i' hp'.reached
  have hfirst' := hp'.first i hp.reached
  exact ⟨rfl, by omega⟩

theorem count_eq (hp : FirstPeak ks m i) (hk : ks[i]? = some k) : ks.count k = m := by
  obtain ⟨k', hk', hcount⟩ := hp.reached
  obtain rfl := Option.some.inj (hk.symm.trans hk')
  have hle := (List.take_sublist (i + 1) ks).count_le k
  have hmost := hp.most k
  omega

/-- Where another key that occurs as often is complete, the one at the peak has been complete. -/
theorem complete {k' : Key} (hp : FirstPeak ks m i) (hk : ks[i]? = some k) (htie : (ks.take n).count k' = m) :
    (ks.take n).count k = m := by
  obtain ⟨peak, hpeak, hcount⟩ := hp.reached
  obtain rfl := Option.some.inj (hk.symm.trans hpeak)
  have hpos : 0 < m := by
    have hmem : k ∈ ks.take (i + 1) := by
      rw [List.take_add_one, hk]
      simp
    rw [← hcount]
    exact List.count_pos_iff.mpr hmem
  obtain ⟨j, hj, hoccurs⟩ := exists_occursAt htie hpos
  have hfirst := hp.first j hoccurs
  have hprefix : (ks.take (i + 1)).Sublist (ks.take n) := List.take_sublist_take_left (by omega)
  have hmono := hprefix.count_le k
  have hle := (List.take_sublist n ks).count_le k
  have hmost := hp.most k
  omega

end FirstPeak

/-! ## The scan -/

/-- The leader of what has been read, with its count. -/
def Leads (t : Ty) (vs : List t.Carrier) : Option (t.Carrier × Nat) → Prop
  | none => vs = []
  | some (v, m) => ∃ i, vs[i]? = some v ∧ FirstPeak (vs.map t.key) m i

variable {t : Ty} {vs : List t.Carrier}

theorem modeFrom_cons (seen : List Key) (best : Option (t.Carrier × Nat)) (v : t.Carrier) (rest : List t.Carrier) :
    modeFrom t seen best (v :: rest) = modeFrom t (t.key v :: seen) (modeFrom t seen best [v]) rest := rfl

theorem leads_concat {best : Option (t.Carrier × Nat)} (h : Leads t vs best) (v : t.Carrier) :
    Leads t (vs ++ [v]) (modeFrom t (vs.map t.key).reverse best [v]) := by
  have hnew {m : Nat} (hm : ∀ k, (vs.map t.key).count k ≤ m) (hlt : m < (vs.map t.key).count (t.key v) + 1) :
      Leads t (vs ++ [v]) (some (v, (vs.map t.key).count (t.key v) + 1)) := by
    refine ⟨vs.length, by simp, ?_⟩
    rw [List.map_append, ← List.length_map (f := t.key)]
    exact .exceeded hm hlt
  cases best with
  | none =>
    obtain rfl : vs = [] := h
    exact hnew (m := 0) (fun k => Nat.le_refl 0) (Nat.succ_pos _)
  | some b =>
    obtain ⟨i, hi, hp⟩ := h
    simp only [modeFrom, List.count_reverse]
    split
    · next hlt => exact hnew hp.most hlt
    · next hge =>
      refine ⟨i, ?_, ?_⟩
      · rw [List.getElem?_append_left (List.getElem?_eq_some_iff.mp hi).1, hi]
      · rw [List.map_append]
        exact hp.kept hge

theorem leads_modeFrom {best : Option (t.Carrier × Nat)} (h : Leads t vs best) (rest : List t.Carrier) :
    Leads t (vs ++ rest) (modeFrom t (vs.map t.key).reverse best rest) := by
  induction rest generalizing vs best with
  | nil =>
    rw [List.append_nil]
    exact h
  | cons v rest ih =>
    rw [modeFrom_cons]
    simpa using ih (leads_concat h v)

theorem leads_mode (t : Ty) (vs : List t.Carrier) : Leads t vs (modeFrom t [] none vs) := by
  have h : Leads t [] none := rfl
  simpa using leads_modeFrom h vs

/-! ## The mode -/

theorem mode_eq_none_iff : t.mode vs = none ↔ vs = [] := by
  constructor
  · intro h
    have hleads := leads_mode t vs
    rw [Option.map_eq_none_iff.mp h] at hleads
    exact hleads
  · rintro rfl
    rfl

theorem mode_eq_some_iff {v : t.Carrier} :
    t.mode vs = some v ↔ ∃ m i, FirstPeak (vs.map t.key) m i ∧ vs[i]? = some v := by
  have exists_peak {w : t.Carrier} (h : t.mode vs = some w) :
      ∃ m i, FirstPeak (vs.map t.key) m i ∧ vs[i]? = some w := by
    obtain ⟨⟨_, m⟩, hbest, rfl⟩ := Option.map_eq_some_iff.mp h
    have hleads := leads_mode t vs
    rw [hbest] at hleads
    obtain ⟨i, hi, hp⟩ := hleads
    exact ⟨m, i, hp, hi⟩
  refine ⟨exists_peak, ?_⟩
  rintro ⟨m, i, hp, hi⟩
  cases hmode : t.mode vs with
  | none =>
    rw [mode_eq_none_iff.mp hmode] at hi
    cases hi
  | some w =>
    obtain ⟨_, _, hp', hw⟩ := exists_peak hmode
    obtain ⟨rfl, rfl⟩ := hp.unique hp'
    exact hw.symm.trans hi

theorem mode_mem {v : t.Carrier} (h : t.mode vs = some v) : v ∈ vs := by
  obtain ⟨_, _, _, hi⟩ := mode_eq_some_iff.mp h
  exact List.mem_of_getElem? hi

/-- The mode is missing only of nothing. It is the value with which a key first reaches the highest
    count of all keys; so no key occurs more often, and one that occurs as often is not complete
    before. -/
theorem mode_first_to_highest (t : Ty) (vs : List t.Carrier) :
    let ks := vs.map t.key
    (t.mode vs = none ↔ vs = []) ∧
      ∀ v, (t.mode vs = some v ↔ ∃ m i, FirstPeak ks m i ∧ vs[i]? = some v) ∧
        (t.mode vs = some v → ∀ k, ks.count k ≤ ks.count (t.key v) ∧
          ∀ n, (ks.take n).count k = ks.count (t.key v) → (ks.take n).count (t.key v) = ks.count (t.key v)) := by
  intro ks
  refine ⟨mode_eq_none_iff, fun v => ⟨mode_eq_some_iff, fun hv k => ?_⟩⟩
  obtain ⟨m, i, hp, hi⟩ := mode_eq_some_iff.mp hv
  have hkey : ks[i]? = some (t.key v) := by simp [ks, hi]
  rw [hp.count_eq hkey]
  exact ⟨hp.most k, fun n htie => hp.complete hkey htie⟩

/-- Two keys occur twice, one of them with both zeros; the other occurs first, but is not complete
    first. -/
theorem mode_first_to_highest_zeros :
    let vs : List Float := [1.5, -0.0, 0.0, 1.5]
    let ks := vs.map (key .double)
    mode .double vs = some 0.0 ∧ ks.count (key .double 1.5) = ks.count (key .double 0.0) ∧
      (∀ k, ks.count k ≤ ks.count (key .double 0.0)) := by
  intro vs ks
  have hmode : mode .double vs = some 0.0 := by decide +kernel
  have htie : ks.count (key .double 1.5) = ks.count (key .double 0.0) := by decide +kernel
  refine ⟨hmode, htie, fun k => ?_⟩
  exact (((mode_first_to_highest .double vs).2 0.0).2 hmode k).1

end RuleExpr.Ty
