/-
  RuleExpr.StringTable — localized texts by key, and the templates among them.

  A table maps keys to texts and templates. Where a text is wanted for a reader, a key
  without entry stands for itself (`userString`).

  In a template `%N%` stands for the N-th argument, counted from 1 and written with any
  number of leading zeros; `%%` stands for a percent sign. A percent sign that opens
  neither is kept as it stands, and what follows it is scanned anew; so of a placeholder
  whose number selects no argument the closing percent sign may yet open something with
  what follows (`fillChars_unmatched`). Arguments are inserted as they are, never scanned.
-/

import RuleExpr.KeyOrdered
import RuleExpr.Text.Uppercase

namespace RuleExpr

/-! ## Templates -/

namespace Text

/-- The number at the head of `cs`, if it is closed by a percent sign, and what follows. -/
def placeholder? (cs : List Char) : Option (Nat × List Char) :=
  match cs.takeWhile Char.isDigit, cs.dropWhile Char.isDigit with
  | d :: ds, '%' :: rest => some (Nat.ofDigitChars 10 (d :: ds) 0, rest)
  | _, _ => none

theorem placeholder?_length {cs rest : List Char} {n : Nat} (h : placeholder? cs = some (n, rest)) :
    rest.length < cs.length := by
  unfold placeholder? at h
  split at h
  · next hd =>
    obtain ⟨_, rfl⟩ := Prod.mk.inj (Option.some.inj h)
    have := (List.dropWhile_suffix Char.isDigit (l := cs)).length_le
    simp only [hd, List.length_cons] at this
    omega
  · cases h

/-- The argument of number `n`. -/
def argument? (args : List String) : Nat → Option String
  | 0 => none
  | n + 1 => args[n]?

def fillChars (args : List String) : List Char → List Char
  | [] => []
  | '%' :: '%' :: rest => '%' :: fillChars args rest
  | c :: rest =>
    if c = '%' then
      match h : placeholder? rest with
      | none => c :: fillChars args rest
      | some (n, after) => match argument? args n with
        | none => c :: fillChars args rest
        | some a =>
          have := placeholder?_length h
          a.toList ++ fillChars args after
    else c :: fillChars args rest
termination_by cs => cs.length
decreasing_by all_goals simp_all <;> omega

def fill (template : String) (args : List String) : String :=
  String.ofList (fillChars args template.toList)

/-! ## Steps of filling -/

variable {args : List String}

theorem argument?_eq_none_iff {n : Nat} : argument? args n = none ↔ ¬ (1 ≤ n ∧ n ≤ args.length) := by
  cases n with
  | zero => simp [argument?]
  | succ n =>
    simp only [argument?, List.getElem?_eq_none_iff]
    omega

theorem placeholder?_digits {ds : List Char} (hne : ds ≠ []) (hds : ∀ d ∈ ds, d.isDigit) (rest : List Char) :
    placeholder? (ds ++ '%' :: rest) = some (Nat.ofDigitChars 10 ds 0, rest) := by
  have htake : (ds ++ '%' :: rest).takeWhile Char.isDigit = ds := by
    rw [List.takeWhile_append_of_pos hds, List.takeWhile_cons_of_neg (by decide), List.append_nil]
  have hdrop : (ds ++ '%' :: rest).dropWhile Char.isDigit = '%' :: rest := by
    rw [List.dropWhile_append_of_pos hds, List.dropWhile_cons_of_neg (by decide)]
  obtain ⟨d, ds', rfl⟩ := List.exists_cons_of_ne_nil hne
  rw [placeholder?, htake, hdrop]
  rfl

theorem exists_digits_of_placeholder? {cs rest : List Char} {n : Nat} (h : placeholder? cs = some (n, rest)) :
    ∃ ds, ds ≠ [] ∧ (∀ d ∈ ds, d.isDigit) ∧ cs = ds ++ '%' :: rest ∧ n = Nat.ofDigitChars 10 ds 0 := by
  unfold placeholder? at h
  split at h
  · next d ds rest' htake hdrop =>
    obtain ⟨rfl, rfl⟩ := Prod.mk.inj (Option.some.inj h)
    refine ⟨d :: ds, nofun, ?_, ?_, rfl⟩
    · rw [← htake]
      exact fun c hc => List.all_eq_true.mp List.all_takeWhile c hc
    · rw [← htake, ← hdrop, List.takeWhile_append_dropWhile]
  · cases h

@[simp] theorem fillChars_nil : fillChars args [] = [] := by rw [fillChars]

@[simp] theorem fillChars_escape (rest : List Char) :
    fillChars args ('%' :: '%' :: rest) = '%' :: fillChars args rest := by
  rw [fillChars]

theorem fillChars_literal {c : Char} (hc : c ≠ '%') (rest : List Char) :
    fillChars args (c :: rest) = c :: fillChars args rest := by
  rw [fillChars, if_neg hc]
  exact fun _ h _ => hc h

theorem fillChars_argument {ds : List Char} (hne : ds ≠ []) (hds : ∀ d ∈ ds, d.isDigit) {a : String}
    (ha : argument? args (Nat.ofDigitChars 10 ds 0) = some a) (rest : List Char) :
    fillChars args ('%' :: (ds ++ '%' :: rest)) = a.toList ++ fillChars args rest := by
  have hopen := placeholder?_digits hne hds rest
  obtain ⟨d, ds', rfl⟩ := List.exists_cons_of_ne_nil hne
  have hd : d ≠ '%' := by
    rintro rfl
    exact absurd (hds '%' List.mem_cons_self) (by decide)
  rw [fillChars, if_pos rfl]
  · split
    · next h => cases hopen.symm.trans h
    · next n after h =>
      obtain ⟨rfl, rfl⟩ := Prod.mk.inj (Option.some.inj (hopen.symm.trans h))
      split
      · next h => cases ha.symm.trans h
      · next a' h =>
        obtain rfl := Option.some.inj (ha.symm.trans h)
        rfl
  · intro rest' _ h
    exact hd (List.head_eq_of_cons_eq h)

theorem fillChars_append {cs : List Char} (hcs : '%' ∉ cs) (rest : List Char) :
    fillChars args (cs ++ rest) = cs ++ fillChars args rest := by
  induction cs with
  | nil => rfl
  | cons c cs ih =>
    have hc : c ≠ '%' := fun h => hcs (h ▸ List.mem_cons_self)
    have hrest : '%' ∉ cs := fun h => hcs (List.mem_cons_of_mem c h)
    rw [List.cons_append, fillChars_literal hc, ih hrest, List.cons_append]

/-- A percent sign that opens nothing. -/
theorem fillChars_stray {rest : List Char} (hescape : rest.head? ≠ some '%')
    (hnone : ∀ n after, placeholder? rest = some (n, after) → argument? args n = none) :
    fillChars args ('%' :: rest) = '%' :: fillChars args rest := by
  rw [fillChars, if_pos rfl]
  · split
    · rfl
    · next n after h =>
      split
      · rfl
      · next a ha => cases (hnone n after h).symm.trans ha
  · rintro rest' _ rfl
    exact hescape rfl

/-- The closing percent sign is scanned anew. -/
theorem fillChars_unmatched {ds : List Char} (hne : ds ≠ []) (hds : ∀ d ∈ ds, d.isDigit)
    (ha : argument? args (Nat.ofDigitChars 10 ds 0) = none) (rest : List Char) :
    fillChars args ('%' :: (ds ++ '%' :: rest)) = '%' :: (ds ++ fillChars args ('%' :: rest)) := by
  have hpercent : '%' ∉ ds := fun h => absurd (hds '%' h) (by decide)
  rw [fillChars_stray, fillChars_append hpercent]
  · obtain ⟨d, ds', rfl⟩ := List.exists_cons_of_ne_nil hne
    intro h
    exact hpercent (Option.some.inj h ▸ List.mem_cons_self)
  · intro n after h
    rw [placeholder?_digits hne hds] at h
    obtain ⟨rfl, -⟩ := Prod.mk.inj (Option.some.inj h)
    exact ha

end Text

/-! ## String tables -/

structure StringTable where
  entries : TextMap String
  deriving BEq

namespace StringTable

def empty : StringTable := ⟨∅⟩

def size (t : StringTable) : Nat := t.entries.size

def insert (t : StringTable) (key text : String) : StringTable := ⟨t.entries.set key text⟩

def lookup (t : StringTable) (key : String) : Option String := t.entries.get? key

def userString (t : StringTable) (key : String) : String := (t.lookup key).getD key

/-- The template under `key`, filled. -/
def format (t : StringTable) (key : String) (args : List String) : Option String :=
  (t.lookup key).map (Text.fill · args)

/-- Localized name of a property: its entry goes by the name in capitals. -/
def propertyName (t : StringTable) (name : String) : String :=
  t.userString ("DESC_VAR_" ++ Text.uppercase name)

end StringTable

end RuleExpr
