/-
  RuleExpr.KeyOrdered — collections kept in strictly ascending order of a key.

  An item carries its key. Inserting replaces the item of the same key, so each key
  occurs once and the order of items does not depend on the order of insertions. What an
  insertion does to lookups is `find?_insert`: it changes the one of its own key, and no
  other. A lookup finds the item of its key if there is one (`find?_eq_some_iff`), and
  collections with the same lookups are the same (`eq_of_find?`). A list in which no key
  repeats gives the same collection in any order (`ofList_eq_of_perm`), and the items of a
  collection give that collection (`ofList_items`).
-/

namespace RuleExpr

structure KeyOrdered {α κ : Type} [Ord κ] (key : α → κ) where
  items : List α
  sorted : items.Pairwise fun a b => compare (key a) (key b) = .lt

namespace KeyOrdered

variable {α κ : Type} [Ord κ] {key : α → κ}

instance [BEq α] : BEq (KeyOrdered key) := ⟨fun m n => m.items == n.items⟩

def empty : KeyOrdered key := ⟨[], .nil⟩

instance : EmptyCollection (KeyOrdered key) := ⟨empty⟩
instance : Inhabited (KeyOrdered key) := ⟨empty⟩

def size (m : KeyOrdered key) : Nat := m.items.length

def find? (m : KeyOrdered key) (k : κ) : Option α := m.items.find? fun a => compare (key a) k == .eq

@[simp] theorem find?_empty (k : κ) : (empty : KeyOrdered key).find? k = none := rfl

def contains (m : KeyOrdered key) (k : κ) : Bool := (m.find? k).isSome

/-- Puts `a` at its place in a sorted list, in place of an item with its key. -/
def place (key : α → κ) (a : α) : List α → List α
  | [] => [a]
  | b :: rest => match compare (key a) (key b) with
    | .lt => a :: b :: rest
    | .eq => a :: rest
    | .gt => b :: place key a rest

theorem mem_place {a x : α} {l : List α} (h : x ∈ place key a l) : x = a ∨ x ∈ l := by
  induction l with
  | nil => exact .inl (List.mem_singleton.mp h)
  | cons b rest ih =>
    unfold place at h
    split at h
    · exact List.mem_cons.mp h
    · exact (List.mem_cons.mp h).imp id (List.mem_cons_of_mem b)
    · rcases List.mem_cons.mp h with h | h
      · exact .inr (h ▸ List.mem_cons_self)
      · exact (ih h).imp id (List.mem_cons_of_mem b)

theorem find?_place [Std.LawfulEqOrd κ] (a : α) (k : κ) (l : List α) :
    (place key a l).find? (fun b => compare (key b) k == .eq)
      = if compare (key a) k = .eq then some a else l.find? fun b => compare (key b) k == .eq := by
  induction l with
  | nil => by_cases h : compare (key a) k = .eq <;> simp [place, h]
  | cons b rest ih =>
    unfold place
    split
    · by_cases h : compare (key a) k = .eq <;> simp [h]
    · next hab =>
      have e : key a = key b := Std.LawfulEqCmp.eq_of_compare hab
      by_cases h : compare (key b) k = .eq <;> simp [e, h]
    · next hab =>
      by_cases h : compare (key b) k = .eq
      · have hk := Std.LawfulEqCmp.eq_of_compare h
        have hak : compare (key a) k ≠ .eq := by simp [← hk, hab]
        simp [h, hak]
      · simp [h, ih]

theorem nodup_keys [Std.LawfulEqOrd κ] (m : KeyOrdered key) : (m.items.map key).Nodup := by
  refine List.pairwise_map.mpr (m.sorted.imp fun {a b} hab h => ?_)
  rw [h, Std.compare_self] at hab
  cases hab

theorem find?_of_mem [Std.LawfulEqOrd κ] {l : List α} (hl : (l.map key).Nodup) {a : α} (ha : a ∈ l) :
    l.find? (fun b => compare (key b) (key a) == .eq) = some a := by
  induction l with
  | nil => cases ha
  | cons b rest ih =>
    obtain ⟨hb, hrest⟩ := List.nodup_cons.mp hl
    rcases List.mem_cons.mp ha with rfl | ha
    · exact List.find?_cons_of_pos (by simp)
    · have hne : key b ≠ key a := fun h => hb (h ▸ List.mem_map_of_mem ha)
      rw [List.find?_cons_of_neg (by simp [hne]), ih hrest ha]

theorem find?_eq_some_iff_of_nodup [Std.LawfulEqOrd κ] {l : List α} (hl : (l.map key).Nodup) {k : κ} {a : α} :
    l.find? (fun b => compare (key b) k == .eq) = some a ↔ a ∈ l ∧ key a = k := by
  constructor
  · intro h
    exact ⟨List.mem_of_find?_eq_some h, by simpa using List.find?_some h⟩
  · rintro ⟨ha, rfl⟩
    exact find?_of_mem hl ha

theorem find?_eq_some_iff [Std.LawfulEqOrd κ] {m : KeyOrdered key} {k : κ} {a : α} :
    m.find? k = some a ↔ a ∈ m.items ∧ key a = k :=
  find?_eq_some_iff_of_nodup m.nodup_keys

variable [Std.TransOrd κ] [Std.LawfulEqOrd κ]

theorem sorted_place (a : α) {l : List α} (h : l.Pairwise fun a b => compare (key a) (key b) = .lt) :
    (place key a l).Pairwise fun a b => compare (key a) (key b) = .lt := by
  induction l with
  | nil => exact List.pairwise_singleton _ a
  | cons b rest ih =>
    have ⟨hb, hr⟩ := List.pairwise_cons.mp h
    unfold place
    split
    · next hab =>
      refine List.pairwise_cons.mpr ⟨fun x hx => ?_, h⟩
      rcases List.mem_cons.mp hx with rfl | hx
      · exact hab
      · exact Std.TransCmp.lt_trans hab (hb x hx)
    · next hab =>
      exact List.pairwise_cons.mpr ⟨fun x hx => Std.LawfulEqCmp.eq_of_compare hab ▸ hb x hx, hr⟩
    · next hab =>
      refine List.pairwise_cons.mpr ⟨fun x hx => ?_, ih hr⟩
      rcases mem_place hx with rfl | hx
      · exact Std.OrientedCmp.gt_iff_lt.mp hab
      · exact hb x hx

def insert (m : KeyOrdered key) (a : α) : KeyOrdered key := ⟨place key a m.items, sorted_place a m.sorted⟩

theorem find?_insert (m : KeyOrdered key) (a : α) (k : κ) :
    (m.insert a).find? k = if compare (key a) k = .eq then some a else m.find? k :=
  find?_place a k m.items

/-- Of the items with one key the last to be inserted counts. -/
theorem find?_foldl_insert (m : KeyOrdered key) (as : List α) (k : κ) :
    (as.foldl insert m).find? k = (as.reverse.find? fun a => compare (key a) k == .eq).or (m.find? k) := by
  induction as generalizing m with
  | nil => rfl
  | cons a as ih =>
    rw [List.foldl_cons, ih, find?_insert, List.reverse_cons, List.find?_append, Option.or_assoc]
    by_cases h : compare (key a) k = .eq <;> simp [h]

/-- The last item of each key. -/
def ofList (as : List α) : KeyOrdered key := as.foldl insert empty

theorem eq_of_find? {m m' : KeyOrdered key} (h : ∀ k, m.find? k = m'.find? k) : m = m' := by
  have hmem : ∀ a, a ∈ m.items ↔ a ∈ m'.items := by
    intro a
    have ha : a ∈ m.items ∧ key a = key a ↔ a ∈ m'.items ∧ key a = key a := by
      rw [← find?_eq_some_iff, ← find?_eq_some_iff, h]
    simpa using ha
  have hnodup : ∀ m : KeyOrdered key, m.items.Nodup := by
    intro m
    exact List.Pairwise.of_map key (fun a b hab e => hab (congrArg key e)) m.nodup_keys
  have hp : m.items.Perm m'.items := (List.perm_ext_iff_of_nodup (hnodup m) (hnodup m')).mpr hmem
  have hitems : m.items = m'.items := by
    refine hp.eq_of_pairwise (fun a b _ _ hab hba => ?_) m.sorted m'.sorted
    have haa : compare (key a) (key a) = .lt := Std.TransCmp.lt_trans hab hba
    rw [Std.compare_self] at haa
    cases haa
  cases m
  cases hitems
  rfl

theorem find?_ofList_eq_some_iff {as : List α} (h : (as.map key).Nodup) {k : κ} {a : α} :
    (ofList as : KeyOrdered key).find? k = some a ↔ a ∈ as ∧ key a = k := by
  have hreverse : (as.reverse.map key).Nodup := by
    rw [List.map_reverse]
    exact List.pairwise_reverse.mpr (h.imp Ne.symm)
  rw [ofList, find?_foldl_insert, find?_empty, Option.or_none, find?_eq_some_iff_of_nodup hreverse, List.mem_reverse]

theorem ofList_eq_of_perm {as bs : List α} (h : (as.map key).Nodup) (hp : as.Perm bs) :
    (ofList as : KeyOrdered key) = ofList bs := by
  refine eq_of_find? fun k => Option.ext fun a => ?_
  rw [find?_ofList_eq_some_iff h, find?_ofList_eq_some_iff ((hp.map key).nodup_iff.mp h), hp.mem_iff]

theorem ofList_items (m : KeyOrdered key) : ofList m.items = m := by
  refine eq_of_find? fun k => Option.ext fun a => ?_
  rw [find?_ofList_eq_some_iff m.nodup_keys, find?_eq_some_iff]

end KeyOrdered

/-- A finite map with text keys. -/
abbrev TextMap (α : Type) := KeyOrdered (Prod.fst : String × α → String)

namespace TextMap

variable {α : Type}

def get? (m : TextMap α) (name : String) : Option α := (m.find? name).map Prod.snd

def set (m : TextMap α) (name : String) (a : α) : TextMap α := m.insert (name, a)

theorem get?_set (m : TextMap α) (name other : String) (a : α) :
    (m.set name a).get? other = if name = other then some a else m.get? other := by
  unfold get? set
  rw [KeyOrdered.find?_insert]
  by_cases h : name = other <;> simp [h]

end TextMap

end RuleExpr
