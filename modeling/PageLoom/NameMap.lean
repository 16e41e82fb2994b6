/-!
# Maps with names as keys

Contexts, keyword arguments and function tables map names to things.  Such a map
lists its entries in the order of their names, which is the order of the bytes
of their UTF-8 text, and has no name twice.  `NameMap` carries that order as an
invariant.

`get?_insert` says what an insertion changes: the name inserted and nothing else.  `get?_union`
says which map wins in a union.  `ext_get?` says that the entries are determined by what `get?`
finds.
-/

namespace PageLoom

/-! ## Sorted lists of entries -/

/-- The order of entries. -/
def NameBefore {α : Type} (a b : String × α) : Prop := a.1 < b.1

/-- Put an entry in its place, replacing the entry of the same name. -/
def insertName {α : Type} (name : String) (x : α) : List (String × α) → List (String × α)
  | [] => [(name, x)]
  | (n, y) :: entries =>
      if name = n then (name, x) :: entries
      else if name < n then (name, x) :: (n, y) :: entries
      else (n, y) :: insertName name x entries

/-- The first entry of a name. -/
def lookupName {α : Type} (name : String) : List (String × α) → Option α
  | [] => none
  | (n, x) :: entries => if n = name then some x else lookupName name entries

theorem mem_insertName {α : Type} {name : String} {x : α} {e : String × α}
    {entries : List (String × α)} (h : e ∈ insertName name x entries) :
    e = (name, x) ∨ e ∈ entries := by
  induction entries with
  | nil => simpa [insertName] using h
  | cons f entries ih =>
      obtain ⟨n, y⟩ := f
      simp only [insertName] at h
      split at h
      · cases List.mem_cons.mp h with
        | inl h => exact Or.inl h
        | inr h => exact Or.inr (.tail _ h)
      · split at h
        · simpa using h
        · cases List.mem_cons.mp h with
          | inl h => exact Or.inr (h ▸ .head _)
          | inr h => exact (ih h).imp id (.tail _)

theorem insertName_sorted {α : Type} (name : String) (x : α) {entries : List (String × α)}
    (h : entries.Pairwise NameBefore) : (insertName name x entries).Pairwise NameBefore := by
  induction entries with
  | nil => simp [insertName]
  | cons f entries ih =>
      obtain ⟨n, y⟩ := f
      cases h with
      | cons hn hs =>
          simp only [insertName]
          split
          next he => exact .cons (fun e me => he ▸ hn e me) hs
          next hne =>
            split
            next hlt =>
              refine .cons (fun e me => ?_) (.cons hn hs)
              cases List.mem_cons.mp me with
              | inl h => exact h ▸ hlt
              | inr h => exact String.lt_trans hlt (hn e h)
            next hge =>
              refine .cons (fun e me => ?_) (ih hs)
              cases mem_insertName me with
              | inl h =>
                  rw [h]
                  have hle : n ≤ name := String.not_lt.mp hge
                  exact Std.lt_of_le_of_ne hle fun h => hne h.symm
              | inr h => exact hn e h

theorem lookupName_insertName {α : Type} (name other : String) (x : α)
    (entries : List (String × α)) :
    lookupName other (insertName name x entries) =
      if name = other then some x else lookupName other entries := by
  induction entries with
  | nil => rfl
  | cons f entries ih =>
      obtain ⟨n, y⟩ := f
      simp only [insertName]
      split
      next he => subst he; by_cases h : name = other <;> simp [lookupName, h]
      next hne =>
        split
        next => rfl
        next =>
          simp only [lookupName, ih]
          by_cases h : n = other
          · subst h; simp [hne]
          · simp [h]

theorem lookupName_eq_none {α : Type} {name : String} {entries : List (String × α)}
    (h : ∀ e ∈ entries, e.1 ≠ name) : lookupName name entries = none := by
  induction entries with
  | nil => rfl
  | cons f entries ih =>
      simp only [lookupName, if_neg (h f (.head _))]
      exact ih fun e me => h e (.tail _ me)

theorem lookupName_eq_some {α : Type} {name : String} {x : α} {entries : List (String × α)}
    (h : lookupName name entries = some x) : (name, x) ∈ entries := by
  induction entries with
  | nil => cases h
  | cons f entries ih =>
      obtain ⟨n, y⟩ := f
      simp only [lookupName] at h
      split at h
      next he => injection h with h; subst he; subst h; exact .head _
      next => exact .tail _ (ih h)

theorem lookupName_eq_some_iff {α : Type} {name : String} {x : α} {entries : List (String × α)}
    (hs : entries.Pairwise NameBefore) :
    lookupName name entries = some x ↔ (name, x) ∈ entries := by
  constructor
  · exact lookupName_eq_some
  · intro hm
    induction entries with
    | nil => cases hm
    | cons f entries ih =>
        obtain ⟨n, y⟩ := f
        cases hs with
        | cons hn hs =>
            cases List.mem_cons.mp hm with
            | inl h => injection h with h1 h2; subst h1; subst h2; simp [lookupName]
            | inr h =>
                have hne : n ≠ name := fun he => String.lt_irrefl n (by
                  have hlt : n < name := hn _ h
                  exact he ▸ hlt)
                simp only [lookupName, if_neg hne]
                exact ih hs h

/-! ## Maps -/

/-- A finite map from names, listed by name. -/
structure NameMap (α : Type) where
  /-- The entries. -/
  entries : List (String × α)
  /-- They are in order, no name twice. -/
  sorted : entries.Pairwise NameBefore := by simp

namespace NameMap

variable {α β : Type}

/-- The map without entries. -/
def empty : NameMap α := ⟨[], .nil⟩

instance : Inhabited (NameMap α) := ⟨empty⟩

/-- Give a name a value. -/
def insert (m : NameMap α) (name : String) (x : α) : NameMap α :=
  ⟨insertName name x m.entries, insertName_sorted name x m.sorted⟩

/-- The value of a name. -/
def get? (m : NameMap α) (name : String) : Option α := lookupName name m.entries

/-- Whether a name has a value. -/
def contains (m : NameMap α) (name : String) : Bool := (m.get? name).isSome

/-- The names, in order. -/
def names (m : NameMap α) : List String := m.entries.map (·.1)

/-- The number of names. -/
def size (m : NameMap α) : Nat := m.entries.length

/-- Insert a list of entries from left to right. -/
def insertAll (m : NameMap α) (entries : List (String × α)) : NameMap α :=
  entries.foldl (fun m e => m.insert e.1 e.2) m

/-- The map of a list of entries, the last of each name. -/
def ofList (entries : List (String × α)) : NameMap α := empty.insertAll entries

/-- The entries whose value `f` maps to something. -/
def filterMap (f : α → Option β) (m : NameMap α) : NameMap β :=
  ofList (m.entries.filterMap fun e => (f e.2).map (e.1, ·))

/-- The entries of two maps; `upper` wins. -/
def union (lower upper : NameMap α) : NameMap α := lower.insertAll upper.entries

@[simp] theorem get?_empty (name : String) : (empty : NameMap α).get? name = none := rfl

theorem get?_insert (m : NameMap α) (name other : String) (x : α) :
    (m.insert name x).get? other = if name = other then some x else m.get? other :=
  lookupName_insertName name other x m.entries

theorem get?_eq_some_iff (m : NameMap α) {name : String} {x : α} :
    m.get? name = some x ↔ (name, x) ∈ m.entries := lookupName_eq_some_iff m.sorted

/-- Entries of other names do not change what a name has. -/
theorem get?_insertAll_of_not_mem (m : NameMap α) {name : String} {entries : List (String × α)}
    (h : ∀ e ∈ entries, e.1 ≠ name) : (m.insertAll entries).get? name = m.get? name := by
  induction entries generalizing m with
  | nil => rfl
  | cons e entries ih =>
      have hrest := ih (m.insert e.1 e.2) fun f hf => h f (.tail _ hf)
      rw [get?_insert, if_neg (h e (.head _))] at hrest
      exact hrest

/-- Of entries with different names, each is found. -/
theorem get?_insertAll_of_mem (m : NameMap α) {name : String} {x : α}
    {entries : List (String × α)} (hn : entries.Pairwise fun e f => e.1 ≠ f.1)
    (h : (name, x) ∈ entries) : (m.insertAll entries).get? name = some x := by
  induction entries generalizing m with
  | nil => cases h
  | cons e entries ih =>
      cases hn with
      | cons he hn =>
          cases List.mem_cons.mp h with
          | inl heq =>
              subst heq
              have hrest := get?_insertAll_of_not_mem (m.insert name x) fun f hf => (he f hf).symm
              rw [get?_insert, if_pos rfl] at hrest
              exact hrest
          | inr hmem => exact ih (m.insert e.1 e.2) hn hmem

/-- A union finds what the upper map has, and else what the lower one has. -/
theorem get?_union (lower upper : NameMap α) (name : String) :
    (lower.union upper).get? name = (upper.get? name).or (lower.get? name) := by
  cases hupper : upper.get? name with
  | some x =>
      refine lower.get?_insertAll_of_mem (upper.sorted.imp fun hlt he => ?_)
        (upper.get?_eq_some_iff.mp hupper)
      rw [NameBefore, he] at hlt
      exact String.lt_irrefl _ hlt
  | none =>
      refine lower.get?_insertAll_of_not_mem fun e he heq => ?_
      have hsome := upper.get?_eq_some_iff.mpr (heq ▸ he : (name, e.2) ∈ upper.entries)
      rw [hupper] at hsome
      cases hsome

/-- What is mapped has the names that the map has, and no others. -/
theorem get?_filterMap_of_none (f : α → Option β) {m : NameMap α} {name : String}
    (h : m.get? name = none) : (m.filterMap f).get? name = none := by
  refine get?_insertAll_of_not_mem empty fun e he heq => ?_
  obtain ⟨d, hd, hde⟩ := List.mem_filterMap.mp he
  obtain ⟨y, -, hy⟩ := Option.map_eq_some_iff.mp hde
  have hname : d.1 = name := by rw [← heq, ← hy]
  have hsome := m.get?_eq_some_iff.mpr (hname ▸ hd : (name, d.2) ∈ m.entries)
  rw [h] at hsome
  cases hsome

/-- The entries are determined by what `get?` finds. -/
theorem ext_get? {m k : NameMap α} (h : ∀ name, m.get? name = k.get? name) : m = k := by
  have hm : ∀ e, e ∈ m.entries ↔ e ∈ k.entries := fun (n, x) => by
    rw [← get?_eq_some_iff, ← get?_eq_some_iff, h]
  obtain ⟨as, ha⟩ := m
  obtain ⟨bs, hb⟩ := k
  simp only at hm
  congr
  clear h
  induction as generalizing bs with
  | nil =>
      cases bs with
      | nil => rfl
      | cons b bs => exact absurd ((hm b).mpr (.head _)) (by simp)
  | cons a as ih =>
      cases bs with
      | nil => exact absurd ((hm a).mp (.head _)) (by simp)
      | cons b bs =>
          cases ha with
          | cons han has =>
          cases hb with
          | cons hbn hbs =>
              have hab : a = b := by
                cases List.mem_cons.mp ((hm a).mp (.head _)) with
                | inl h => exact h
                | inr h1 =>
                    cases List.mem_cons.mp ((hm b).mpr (.head _)) with
                    | inl h => exact h.symm
                    | inr h2 => exact absurd (hbn a h1) (String.lt_asymm (han b h2))
              subst hab
              congr 1
              refine ih has bs hbs fun e => ⟨fun me => ?_, fun me => ?_⟩
              · cases List.mem_cons.mp ((hm e).mp (.tail _ me)) with
                | inl h => exact absurd (h ▸ han e me) (String.lt_irrefl _)
                | inr h => exact h
              · cases List.mem_cons.mp ((hm e).mpr (.tail _ me)) with
                | inl h => exact absurd (h ▸ hbn e me) (String.lt_irrefl _)
                | inr h => exact h

end NameMap

end PageLoom
