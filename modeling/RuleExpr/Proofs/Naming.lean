/-
  RuleExpr.Proofs.Naming — which texts name a variable, and what they name.

  Splitting a dotted name and joining the segments again loses nothing (`Text.join_split`); here is
  the converse, which needs that no segment holds a dot (`Text.split_join`). So the variable of a
  path without such segments is the one that its dotted name names (`Variable.parse_dotted`). The
  characters of the name are those of the segments, and dots (`Text.mem_join`).

  The pieces of a text are its parts between dots, from the ends of the text on (`Text.IsPiece`);
  splitting at dots gives just these (`Text.mem_split_iff`). A text names a variable if no piece of it
  is empty, that is, if no dot comes first, last or next to another and there is something at all. The
  variable's dotted name is that text again; and a variable whose segments hold no dots is the one
  that its dotted name names. A statistic takes its property by the same rule, but for the empty text,
  with which it reads none.
-/

import RuleExpr.Node.Basic

namespace RuleExpr

/-! ## Segments of a dotted name -/

theorem Text.toList_join (segments : List String) :
    (Text.join segments).toList = ['.'].intercalate (segments.map String.toList) :=
  String.toList_intercalate

theorem Text.mem_intercalate {α : Type} {a b : α} {ls : List (List α)} :
    b ∈ [a].intercalate ls → b = a ∨ ∃ l ∈ ls, b ∈ l := by
  induction ls with
  | nil => exact nofun
  | cons l rest ih =>
    intro h
    cases rest with
    | nil => exact .inr ⟨l, List.mem_cons_self, by rwa [List.intercalate_singleton] at h⟩
    | cons l' rest =>
      rw [List.intercalate_cons_cons, List.mem_append, List.mem_append, List.mem_singleton] at h
      rcases h with (h | h) | h
      · exact .inr ⟨l, List.mem_cons_self, h⟩
      · exact .inl h
      · exact (ih h).imp_right fun ⟨r, hr, hb⟩ => ⟨r, List.mem_cons_of_mem l hr, hb⟩

theorem Text.mem_join {segments : List String} {c : Char} (h : c ∈ (join segments).toList) :
    c = '.' ∨ ∃ s ∈ segments, c ∈ s.toList := by
  rw [toList_join] at h
  refine (mem_intercalate h).imp_right ?_
  rintro ⟨_, hl, hc⟩
  obtain ⟨s, hs, rfl⟩ := List.mem_map.mp hl
  exact ⟨s, hs, hc⟩

theorem Text.mem_join_of_mem {segments : List String} {s : String} (hs : s ∈ segments) {c : Char}
    (hc : c ∈ s.toList) : c ∈ (join segments).toList := by
  rw [toList_join]
  induction segments with
  | nil => cases hs
  | cons r rest ih =>
    cases rest with
    | nil =>
      obtain rfl := List.mem_singleton.mp hs
      rwa [List.map_cons, List.map_nil, List.intercalate_singleton]
    | cons r' rest =>
      rw [List.map_cons, List.map_cons, List.intercalate_cons_cons, List.mem_append]
      rcases List.mem_cons.mp hs with rfl | hs
      · exact .inl (List.mem_append_left _ hc)
      · exact .inr (ih hs)

theorem Text.split_join {segments : List String} (hne : segments ≠ []) (hdot : ∀ s ∈ segments, '.' ∉ s.toList) :
    Text.split (Text.join segments) = segments := by
  have hdot' : ∀ l ∈ segments.map String.toList, '.' ∉ l := by
    intro l hl
    obtain ⟨s, hs, rfl⟩ := List.mem_map.mp hl
    exact hdot s hs
  rw [split, toList_join, List.splitOn_intercalate '.' hdot' (by simpa using hne), List.map_map]
  exact (List.map_congr_left fun s _ => String.ofList_toList).trans (List.map_id segments)

theorem Variable.ofPath_path (x : Variable) : ofPath x.path = .ok x := by
  rw [ofPath, dif_neg x.path_ne_nil, dif_pos x.segment_ne]

theorem Variable.parse_dotted (x : Variable) (hdot : ∀ s ∈ x.path, '.' ∉ s.toList) : parse x.dotted = .ok x := by
  rw [parse, dotted, Text.split_join x.path_ne_nil hdot, ofPath_path]

/-! ## Pieces -/

namespace Text

/-- The part holds no dot, and what comes just before and just after it can only be one. -/
def IsPiece (s piece : String) : Prop :=
  '.' ∉ piece.toList ∧ ∃ before after, s.toList = before ++ piece.toList ++ after ∧
    (∀ c ∈ before.getLast?, c = '.') ∧ ∀ c ∈ after.head?, c = '.'

theorem splitOn_append {α : Type} [BEq α] [LawfulBEq α] {a : α} {l after : List α} (hl : a ∉ l)
    (hafter : ∀ x ∈ after.head?, x = a) : ∃ rest, (l ++ after).splitOn a = l :: rest := by
  cases after with
  | nil =>
    rw [List.append_nil]
    exact ⟨[], List.splitOn_eq_singleton hl⟩
  | cons x rest =>
    obtain rfl := hafter x rfl
    exact ⟨rest.splitOn x, List.splitOn_append_cons_self_of_not_mem hl rest⟩

theorem mem_splitOn_of_between {α : Type} [BEq α] [LawfulBEq α] {a : α} {before l after : List α} (hl : a ∉ l)
    (hbefore : ∀ x ∈ before.getLast?, x = a) (hafter : ∀ x ∈ after.head?, x = a) :
    l ∈ (before ++ l ++ after).splitOn a := by
  obtain ⟨rest, hrest⟩ := splitOn_append hl hafter
  rw [List.append_assoc]
  rcases List.eq_nil_or_concat before with rfl | ⟨first, x, rfl⟩
  · rw [List.nil_append, hrest]
    exact List.mem_cons_self
  · obtain rfl := hbefore x (by simp)
    rw [List.concat_eq_append, List.append_assoc, List.singleton_append, List.splitOn_append_cons_self, hrest]
    exact List.mem_append_right _ List.mem_cons_self

theorem between_of_mem_splitOn {α : Type} [BEq α] [LawfulBEq α] {a : α} {l xs : List α} (h : l ∈ xs.splitOn a) :
    a ∉ l ∧ ∃ before after, xs = before ++ l ++ after ∧ (∀ x ∈ before.getLast?, x = a) ∧ ∀ x ∈ after.head?, x = a := by
  by_cases ha : a ∈ xs
  · obtain ⟨first, rest, rfl, hfirst⟩ := List.eq_append_cons_of_mem ha
    rw [List.splitOn_append_cons_self_of_not_mem hfirst] at h
    rcases List.mem_cons.mp h with rfl | h
    · exact ⟨hfirst, [], a :: rest, rfl, nofun, by simp⟩
    · obtain ⟨hl, before, after, rfl, hbefore, hafter⟩ := between_of_mem_splitOn h
      refine ⟨hl, first ++ a :: before, after, by simp, ?_, hafter⟩
      rw [List.getLast?_append, List.getLast?_cons]
      cases hlast : before.getLast? with
      | none => simp
      | some x => simpa [hlast] using hbefore
  · rw [List.splitOn_eq_singleton ha, List.mem_singleton] at h
    subst h
    exact ⟨ha, [], [], by simp, nofun, nofun⟩
termination_by xs.length

theorem mem_split_iff {s piece : String} : piece ∈ split s ↔ IsPiece s piece := by
  have hsplit : piece ∈ split s ↔ piece.toList ∈ s.toList.splitOn '.' := by
    unfold split
    rw [List.mem_map]
    constructor
    · rintro ⟨l, hl, rfl⟩
      rwa [String.toList_ofList]
    · exact fun h => ⟨_, h, String.ofList_toList⟩
  rw [hsplit]
  constructor
  · exact between_of_mem_splitOn
  · rintro ⟨hdot, before, after, hs, hbefore, hafter⟩
    rw [hs]
    exact mem_splitOn_of_between hdot hbefore hafter

end Text

/-! ## Names -/

namespace Variable

theorem ofPath_eq_ok_iff {path : List String} {x : Variable} : ofPath path = .ok x ↔ x.path = path := by
  constructor
  · intro h
    unfold ofPath at h
    split at h
    · cases h
    · split at h
      · obtain rfl := Except.ok.inj h
        rfl
      · cases h
  · rintro rfl
    exact x.ofPath_path

theorem exists_ofPath_iff {path : List String} (hne : path ≠ []) : (∃ x, ofPath path = .ok x) ↔ ∀ s ∈ path, s ≠ "" := by
  constructor
  · rintro ⟨x, hx⟩
    rw [← ofPath_eq_ok_iff.mp hx]
    exact x.segment_ne
  · exact fun hs => ⟨⟨path, hne, hs⟩, ofPath_eq_ok_iff.mpr rfl⟩

theorem exists_parse_iff (s : String) : (∃ x, parse s = .ok x) ↔ ∀ piece ∈ Text.split s, piece ≠ "" :=
  exists_ofPath_iff (Text.split_ne_nil s)

theorem dotted_of_parse {s : String} {x : Variable} (h : parse s = .ok x) : x.dotted = s := by
  rw [dotted, ofPath_eq_ok_iff.mp h, Text.join_split]

theorem not_parse_empty : ¬ ∃ x, parse "" = .ok x := by
  rintro ⟨x, hx⟩
  cases hx

end Variable

namespace Statistic

variable {H : Type}

theorem exists_ofProperty_iff (r : Reduction) (property : String) (condition : Condition H) :
    (∃ s, ofProperty r property condition = .ok s) ↔
      (∀ s ∈ propertyPath property, s ≠ "") ∧ (r.needsValues → propertyPath property ≠ []) := by
  unfold ofProperty
  constructor
  · rintro ⟨s, hs⟩
    split at hs
    · next hsegments =>
      split at hs
      · next hneeded => exact ⟨hsegments, hneeded⟩
      · cases hs
    · cases hs
  · rintro ⟨hsegments, hneeded⟩
    rw [dif_pos hsegments, dif_pos hneeded]
    exact ⟨_, rfl⟩

theorem needsValues_eq_false_iff {r : Reduction} : r.needsValues = false ↔ r = .count ∨ r = .any := by
  cases r <;> decide

theorem exists_ofProperty_iff_parse (r : Reduction) (property : String) (condition : Condition H) :
    (∃ s, ofProperty r property condition = .ok s) ↔
      (∃ x, Variable.parse property = .ok x) ∨ property = "" ∧ (r = .count ∨ r = .any) := by
  rw [exists_ofProperty_iff, propertyPath, ← needsValues_eq_false_iff]
  by_cases hp : property = ""
  · subst hp
    simp [Variable.not_parse_empty]
  · simp [hp, Variable.exists_parse_iff, Text.split_ne_nil]

end Statistic

/-- Texts without empty pieces are the dotted names of variables, each of just one whose segments hold
    no dots; and they are what a statistic takes for a property, besides the empty text where it needs
    none. -/
theorem names_correspond {H : Type} :
    (∀ s, ((∃ x, Variable.parse s = .ok x) ↔ ∀ piece, Text.IsPiece s piece → piece ≠ "") ∧
        ∀ x, Variable.parse s = .ok x → x.dotted = s) ∧
      (∀ path, path ≠ [] → (∀ s ∈ path, s ≠ "" ∧ '.' ∉ s.toList) →
        ∃ x, Variable.ofPath path = .ok x ∧ ∃ y, Variable.parse x.dotted = .ok y ∧ y = x ∧
          y.reference = x.reference ∧ ∀ t c, y.eval t c = x.eval t c) ∧
      ∀ (r : Reduction) (property : String) (condition : Condition H),
        (∃ s, Statistic.ofProperty r property condition = .ok s) ↔
          (∃ x, Variable.parse property = .ok x) ∨ property = "" ∧ (r = .count ∨ r = .any) := by
  refine ⟨fun s => ⟨?_, fun x => Variable.dotted_of_parse⟩, fun path hne hpath => ?_,
    Statistic.exists_ofProperty_iff_parse⟩
  · rw [Variable.exists_parse_iff]
    simp only [Text.mem_split_iff]
  · obtain ⟨x, hx⟩ := (Variable.exists_ofPath_iff hne).mpr fun s hs => (hpath s hs).1
    have hdot : ∀ s ∈ x.path, '.' ∉ s.toList := by
      rw [Variable.ofPath_eq_ok_iff.mp hx]
      exact fun s hs => (hpath s hs).2
    exact ⟨x, hx, x, x.parse_dotted hdot, rfl, rfl, fun _ _ => rfl⟩

/-- A name of two segments, and what becomes of it when a second dot is put between them. -/
theorem names_correspond_owner :
    let path := ["Source", "Owner"]
    path ≠ [] ∧ (∀ s ∈ path, s ≠ "" ∧ '.' ∉ s.toList) ∧
      (∃ x, Variable.ofPath path = .ok x ∧ ∃ y, Variable.parse x.dotted = .ok y ∧ y = x ∧
        y.reference = x.reference ∧ ∀ t c, y.eval t c = x.eval t c) ∧
      Text.IsPiece "Source..Owner" "" ∧ (¬ ∃ x, Variable.parse "Source..Owner" = .ok x) ∧
      ¬ ∃ s, Statistic.ofProperty .count "Source..Owner" (.all : Condition Empty) = .ok s := by
  intro path
  obtain ⟨htexts, hpaths, hproperties⟩ := names_correspond (H := Empty)
  have hne : path ≠ [] := by decide
  have hpath : ∀ s ∈ path, s ≠ "" ∧ '.' ∉ s.toList := by decide
  have hpiece : Text.IsPiece "Source..Owner" "" :=
    ⟨by decide, "Source.".toList, ".Owner".toList, rfl, fun _ hc => (Option.some.inj hc).symm,
      fun _ hc => (Option.some.inj hc).symm⟩
  have hrefused : ¬ ∃ x, Variable.parse "Source..Owner" = .ok x := fun h => (htexts _).1.mp h "" hpiece rfl
  refine ⟨hne, hpath, hpaths path hne hpath, hpiece, hrefused, fun h => ?_⟩
  rcases (hproperties _ _ _).mp h with h | ⟨h, -⟩
  · exact hrefused h
  · exact absurd h (by decide)

end RuleExpr
