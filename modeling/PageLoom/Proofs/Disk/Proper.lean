import PageLoom.Proofs.Disk.Place
import PageLoom.Tree.Name

/-!
# Proper disks

A proper entry is one that can stand on a disk: its folders list their entries by name, none
twice, and every name leads down from the folder that it is in (`Entry.Proper`).  A disk is
proper if its topmost folder is, and if names that lead down lead to the folder that relative
paths start in.  Then only such names are on the way to the place of a path
(`Disk.Proper.placeOf`), and so a disk stays proper whatever is made, written and removed.
-/

namespace PageLoom

instance {α : Type} (a b : String × α) : Decidable (NameBefore a b) :=
  inferInstanceAs (Decidable (a.1 < b.1))

instance (name : String) : Decidable (IsEntryName name) := inferInstanceAs (Decidable (_ ∧ _))

/-- Induction on the entries of a folder, and on the entries of those that are folders. -/
theorem entries_induction {motive : List (String × Entry) → Prop} (nil : motive [])
    (file : ∀ name bytes rest, motive rest → motive ((name, .file bytes) :: rest))
    (folder : ∀ name inside rest, motive inside → motive rest →
      motive ((name, .folder inside) :: rest)) : ∀ entries, motive entries
  | [] => nil
  | (name, .file bytes) :: rest => file name bytes rest (entries_induction nil file folder rest)
  | (name, .folder inside) :: rest =>
      folder name inside rest (entries_induction nil file folder inside)
        (entries_induction nil file folder rest)
termination_by entries => sizeOf entries
decreasing_by
  all_goals
    simp only [List.cons.sizeOf_spec, Prod.mk.sizeOf_spec, Entry.folder.sizeOf_spec]
    omega

namespace Entry

/-! ## Proper entries -/

/-- All folders list their entries by name, and all names lead down. -/
inductive Proper : Entry → Prop
  | file (bytes : ByteArray) : Proper (.file bytes)
  | folder {entries : List (String × Entry)} (sorted : entries.Pairwise NameBefore)
      (names : ∀ x ∈ entries, IsEntryName x.1 ∧ x.1 ≠ "." ∧ x.1 ≠ "..")
      (inside : ∀ x ∈ entries, x.2.Proper) : Proper (.folder entries)

theorem Proper.sorted {entries : List (String × Entry)} (h : (Entry.folder entries).Proper) :
    entries.Pairwise NameBefore := by
  cases h with
  | folder sorted names inside => exact sorted

theorem Proper.names {entries : List (String × Entry)} (h : (Entry.folder entries).Proper) :
    ∀ x ∈ entries, IsEntryName x.1 ∧ x.1 ≠ "." ∧ x.1 ≠ ".." := by
  cases h with
  | folder sorted names inside => exact names

theorem Proper.inside {entries : List (String × Entry)} (h : (Entry.folder entries).Proper) :
    ∀ x ∈ entries, x.2.Proper := by
  cases h with
  | folder sorted names inside => exact inside

theorem Proper.of_cons {x : String × Entry} {rest : List (String × Entry)}
    (h : (Entry.folder (x :: rest)).Proper) :
    x.2.Proper ∧ (Entry.folder rest).Proper ∧ ∀ y ∈ rest, x.1 ≠ y.1 := by
  have hsorted := List.pairwise_cons.mp h.sorted
  refine ⟨h.inside x (.head _), .folder hsorted.2 (fun y hy => h.names y (.tail _ hy))
    fun y hy => h.inside y (.tail _ hy), fun y hy heq => ?_⟩
  have hlt := hsorted.1 y hy
  rw [NameBefore, heq] at hlt
  exact String.lt_irrefl _ hlt

/-- What is at a place in a proper folder is proper, and the names that lead there lead down. -/
theorem Proper.at? {e x : Entry} (h : e.Proper) {place : List String}
    (hx : e.at? place = some x) :
    x.Proper ∧ ∀ name ∈ place, IsEntryName name ∧ name ≠ "." ∧ name ≠ ".." := by
  induction place generalizing e with
  | nil =>
      cases hx
      exact ⟨h, List.forall_mem_nil _⟩
  | cons name place ih =>
      cases e with
      | file bytes => cases hx
      | folder entries =>
          obtain ⟨child, hchild, hrest⟩ := Option.bind_eq_some_iff.mp hx
          have hmem := lookupName_eq_some hchild
          obtain ⟨hproper, hplace⟩ := ih (h.inside _ hmem) hrest
          exact ⟨hproper, List.forall_mem_cons.mpr ⟨h.names _ hmem, hplace⟩⟩

/-- Inserting a proper entry under a proper name keeps a folder in order. -/
theorem Proper.insertName {entries : List (String × Entry)} (h : (Entry.folder entries).Proper)
    {name : String} {new : Entry} (hname : IsEntryName name ∧ name ≠ "." ∧ name ≠ "..")
    (hnew : new.Proper) : (Entry.folder (insertName name new entries)).Proper := by
  refine .folder (insertName_sorted name new h.sorted) (fun x hx => ?_) (fun x hx => ?_)
  · rcases mem_insertName hx with rfl | hx
    · exact hname
    · exact h.names x hx
  · rcases mem_insertName hx with rfl | hx
    · exact hnew
    · exact h.inside x hx

/-- An entry put anywhere below leaves the disk proper. -/
theorem Proper.put {e new : Entry} (h : e.Proper) (hnew : new.Proper) {place : List String}
    (hplace : ∀ name ∈ place, IsEntryName name ∧ name ≠ "." ∧ name ≠ "..") :
    (e.put place new).Proper := by
  induction place generalizing e with
  | nil => exact hnew
  | cons name place ih =>
      rw [List.forall_mem_cons] at hplace
      cases e with
      | file bytes => exact h
      | folder entries =>
          cases place with
          | nil => exact h.insertName hplace.1 hnew
          | cons next rest =>
              simp only [Entry.put]
              split
              next child hchild =>
                exact h.insertName hplace.1 (ih (h.inside _ (lookupName_eq_some hchild)) hplace.2)
              next => exact h

theorem Proper.remove {e : Entry} (h : e.Proper) (place : List String) :
    (e.remove place).Proper := by
  induction place generalizing e with
  | nil => exact h
  | cons name place ih =>
      cases e with
      | file bytes => exact h
      | folder entries =>
          cases place with
          | nil =>
              exact .folder (h.sorted.filter _) (fun x hx => h.names x (List.mem_filter.mp hx).1)
                fun x hx => h.inside x (List.mem_filter.mp hx).1
          | cons next rest =>
              simp only [Entry.remove]
              split
              next child hchild =>
                have hmem := lookupName_eq_some hchild
                exact h.insertName (h.names _ hmem) (ih (h.inside _ hmem))
              next => exact h

end Entry

/-! ## Proper disks -/

/-- The names that segments lead to are those before, and segments that lead down. -/
theorem mem_goAlong {place segments : List String} {name : String}
    (h : name ∈ goAlong place segments) :
    name ∈ place ∨ (name ∈ segments ∧ name ≠ "" ∧ name ≠ "." ∧ name ≠ "..") := by
  fun_induction goAlong place segments with
  | case1 place => exact .inl h
  | case2 place s rest hidle ih =>
      exact (ih h).imp_right fun hm => ⟨.tail _ hm.1, hm.2⟩
  | case3 place rest hidle ih =>
      exact (ih h).imp List.mem_of_mem_tail fun hm => ⟨.tail _ hm.1, hm.2⟩
  | case4 place s rest hidle hup ih =>
      rcases ih h with hm | hm
      · rcases List.mem_cons.mp hm with rfl | hm
        · exact .inr ⟨.head _, (not_or.mp hidle).1, (not_or.mp hidle).2, hup⟩
        · exact .inl hm
      · exact .inr ⟨.tail _ hm.1, hm.2⟩

namespace Disk

/-- All entries are proper, and names that lead down lead to where relative paths start. -/
structure Proper (d : Disk) : Prop where
  top : d.top.Proper
  here : ∀ name ∈ d.here, IsEntryName name ∧ name ≠ "." ∧ name ≠ ".."

/-- Names that lead down lead to the place of a path. -/
theorem Proper.placeOf {d : Disk} (h : d.Proper) (p : Path) :
    ∀ name ∈ d.placeOf p, IsEntryName name ∧ name ≠ "." ∧ name ≠ ".." := by
  intro name hname
  rw [Disk.placeOf, List.mem_reverse] at hname
  rcases mem_goAlong hname with hstart | ⟨hsegment, hempty, hdots⟩
  · rw [start] at hstart
    split at hstart
    next => cases hstart
    next => exact h.here name (List.mem_reverse.mp hstart)
  · obtain ⟨chars, hchars, rfl⟩ := List.mem_map.mp hsegment
    refine ⟨⟨hempty, ?_⟩, hdots⟩
    rw [String.toList_ofList]
    exact not_mem_of_mem_splitSlashes hchars

theorem Proper.makeFolder {d d' : Disk} (h : d.Proper) {p : Path}
    (hmade : d.makeFolder p = .ok d') : d'.Proper := by
  rw [Disk.makeFolder] at hmade
  split at hmade
  next place hfree =>
    cases hmade
    obtain rfl : place = d.placeOf p := eq_placeOf_of_followToMake hfree
    exact ⟨h.top.put (.folder .nil (List.forall_mem_nil _) (List.forall_mem_nil _)) (h.placeOf p),
      h.here⟩
  next => cases hmade
  next => cases hmade

/-- However many of the folders could be made, the disk they leave is proper. -/
theorem Proper.makeFoldersFrom {d : Disk} (h : d.Proper) (folders : List Path) :
    (d.makeFoldersFrom folders).2.Proper := by
  induction folders with
  | nil => exact h
  | cons p folders ih =>
      rw [Disk.makeFoldersFrom]
      split
      next => exact h
      split
      next hmade => exact h.makeFolder hmade
      next =>
        split
        next d₁ h₁ => rwa [h₁] at ih
        next d₁ h₁ =>
          rw [h₁] at ih
          split
          next hmade => exact ih.makeFolder hmade
          next => exact ih
      next => exact h

theorem Proper.makeFolders {d d' : Disk} (h : d.Proper) {p : Path} {r : Except DiskError Unit}
    (hmade : d.makeFolders p = (r, d')) : d'.Proper := by
  have hproper := h.makeFoldersFrom (p :: p.folders)
  rw [Disk.makeFolders] at hmade
  rwa [hmade] at hproper

/-- Writing a file leaves the disk proper. -/
theorem Proper.write {d d' : Disk} (h : d.Proper) {p : Path} {bytes : ByteArray}
    (hwrite : d.write p bytes = .ok d') : d'.Proper := by
  obtain ⟨place, -, hput, hlocate⟩ := exists_spot_of_write hwrite
  have hhere : d'.here = d.here := by rw [hput]
  obtain rfl : place = d.placeOf p :=
    (eq_placeOf_of_locate hlocate).trans (placeOf_of_here hhere p)
  rw [hput]
  exact ⟨h.top.put (.file bytes) (h.placeOf p), h.here⟩

/-- Removing a folder leaves the disk proper. -/
theorem Proper.removeFolder {d d' : Disk} (h : d.Proper) {p : Path}
    (hremoved : d.removeFolder p = .ok d') : d'.Proper := by
  rw [Disk.removeFolder] at hremoved
  split at hremoved
  next => cases hremoved
  next => cases hremoved
  next place entries hplace =>
    cases hremoved
    exact ⟨h.top.remove place, h.here⟩

end Disk

end PageLoom
