import PageLoom.NameMap

/-!
# What maps are made of

A map of entries has the last one of each name (`NameMap.get?_ofList_eq_some_iff`) and lists every
name once, in order (`NameMap.mem_names_ofList`, `NameMap.pairwise_names`).
-/

namespace PageLoom

/-! ## The last entry of a name -/

/-- The last entry of a name in a list. -/
def IsLastOf {α : Type} (name : String) (x : α) (entries : List (String × α)) : Prop :=
  ∃ front back, entries = front ++ (name, x) :: back ∧ ∀ e ∈ back, e.1 ≠ name

theorem not_isLastOf_nil {α : Type} (name : String) (x : α) : ¬ IsLastOf name x [] := by
  rintro ⟨front, back, h, -⟩
  simp at h

/-- An entry is the last of its name unless a later one has the same name. -/
theorem isLastOf_cons {α : Type} {name n : String} {x y : α} {entries : List (String × α)} :
    IsLastOf name x ((n, y) :: entries) ↔
      IsLastOf name x entries ∨ (∀ e ∈ entries, e.1 ≠ name) ∧ n = name ∧ y = x := by
  constructor
  · rintro ⟨front, back, h, hback⟩
    cases front with
    | nil =>
        cases h
        exact .inr ⟨hback, rfl, rfl⟩
    | cons e front =>
        cases h
        exact .inl ⟨front, back, rfl, hback⟩
  · rintro (⟨front, back, rfl, hback⟩ | ⟨hback, rfl, rfl⟩)
    · exact ⟨(n, y) :: front, back, rfl, hback⟩
    · exact ⟨[], entries, rfl, hback⟩

/-- Entries are put somewhere one after another, and each of them changes what is found at its own
name.  Then the last one of a name is found there. -/
theorem find_foldl_eq_some_iff {α σ : Type} (find : σ → Option α) {put : σ → String × α → σ}
    {name : String} (hput : ∀ s e, find (put s e) = if e.1 = name then some e.2 else find s) (s : σ)
    {x : α} {entries : List (String × α)} : find (entries.foldl put s) = some x ↔
      IsLastOf name x entries ∨ (∀ e ∈ entries, e.1 ≠ name) ∧ find s = some x := by
  induction entries generalizing s with
  | nil => simp [not_isLastOf_nil]
  | cons e entries ih =>
      obtain ⟨n, y⟩ := e
      rw [List.foldl_cons, ih, isLastOf_cons, hput, or_assoc]
      refine or_congr_right ?_
      by_cases hn : n = name
      · simp [hn]
      · simp [hn]

/-- After a run of insertions a name has its last value among them, or the old one if it was not
among them. -/
theorem NameMap.get?_insertAll_eq_some_iff {α : Type} (m : NameMap α) {name : String} {x : α}
    {entries : List (String × α)} : (m.insertAll entries).get? name = some x ↔
      IsLastOf name x entries ∨ (∀ e ∈ entries, e.1 ≠ name) ∧ m.get? name = some x :=
  find_foldl_eq_some_iff (get? · name) (fun m e => m.get?_insert e.1 name e.2) m

/-- A map of entries has the last one of each name. -/
theorem NameMap.get?_ofList_eq_some_iff {α : Type} {name : String} {x : α}
    {entries : List (String × α)} :
    (ofList entries).get? name = some x ↔ IsLastOf name x entries := by
  rw [ofList, get?_insertAll_eq_some_iff]
  simp

/-! ## Names -/

/-- A name that occurs has a last entry. -/
theorem exists_isLastOf_iff {α : Type} {name : String} {entries : List (String × α)} :
    (∃ x, IsLastOf name x entries) ↔ ∃ e ∈ entries, e.1 = name := by
  constructor
  · rintro ⟨x, front, back, rfl, -⟩
    exact ⟨(name, x), List.mem_append_right front List.mem_cons_self, rfl⟩
  · intro h
    induction entries with
    | nil => simp at h
    | cons d entries ih =>
        by_cases hlater : ∃ e ∈ entries, e.1 = name
        · obtain ⟨x, hx⟩ := ih hlater
          exact ⟨x, isLastOf_cons.mpr (.inl hx)⟩
        · -- No later entry has the name, so the first one does.
          obtain ⟨e, he, hname⟩ := h
          rcases List.mem_cons.mp he with rfl | he
          · exact ⟨e.2, isLastOf_cons.mpr
              (.inr ⟨fun d hd hdname => hlater ⟨d, hd, hdname⟩, hname, rfl⟩)⟩
          · exact absurd ⟨e, he, hname⟩ hlater

namespace NameMap

variable {α : Type}

theorem mem_names {m : NameMap α} {name : String} :
    name ∈ m.names ↔ ∃ x, m.get? name = some x := by
  simp only [get?_eq_some_iff, names, List.mem_map]
  constructor
  · rintro ⟨e, he, rfl⟩
    exact ⟨e.2, he⟩
  · rintro ⟨x, hx⟩
    exact ⟨(name, x), hx, rfl⟩

/-- The names of a map are listed in strict order. -/
theorem pairwise_names (m : NameMap α) : m.names.Pairwise (· < ·) :=
  List.pairwise_map.mpr m.sorted

/-- A map built from entries has the names of those entries. -/
theorem mem_names_ofList {entries : List (String × α)} {name : String} :
    name ∈ (ofList entries).names ↔ ∃ e ∈ entries, e.1 = name := by
  simp only [mem_names, get?_ofList_eq_some_iff, exists_isLastOf_iff]

end NameMap

end PageLoom
