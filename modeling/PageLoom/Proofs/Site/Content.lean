import PageLoom.Proofs.Disk.Files
import PageLoom.Proofs.Disk.Proper
import PageLoom.Site.Collect
import Mathlib.Data.List.TakeDrop

/-!
# The files of a folder of content

The files of content are those that no hidden name leads to.  `FileBelow` finds them as they are
listed, folder by folder, and with each file the entries of its folder.  In a proper folder they
are the files at the places without hidden names (`fileBelow_iff`).

A file has an extension if its name is a stem, a dot and the extension
(`extensionOf_eq_some_iff`).
-/

namespace PageLoom

/-! ## Stems and extensions -/

theorem splitName_append {stem ext : String} (hstem : stem ≠ "") (hext : '.' ∉ ext.toList) :
    Path.splitName (stem ++ "." ++ ext) = (stem, some ext) := by
  have hreverse : (stem ++ "." ++ ext).toList.reverse =
      ext.toList.reverse ++ '.' :: stem.toList.reverse := by
    rw [String.toList_append, String.toList_append, List.reverse_append, List.reverse_append]
    rfl
  have hkept : ∀ c ∈ ext.toList.reverse, (c != '.') = true := fun c hc =>
    bne_iff_ne.mpr fun he => hext (he ▸ List.mem_reverse.mp hc)
  have hspan : (stem ++ "." ++ ext).toList.reverse.span (· != '.') =
      (ext.toList.reverse, '.' :: stem.toList.reverse) := by
    rw [hreverse, List.span_eq_takeWhile_dropWhile, List.takeWhile_append_of_pos hkept,
      List.dropWhile_append_of_pos hkept, List.takeWhile_cons_of_neg (by simp),
      List.dropWhile_cons_of_neg (by simp), List.append_nil]
  rw [Path.splitName, hspan]
  cases hs : stem.toList.reverse with
  | nil => exact absurd (String.toList_eq_nil_iff.mp (List.reverse_eq_nil_iff.mp hs)) hstem
  | cons c cs =>
      dsimp only
      rw [← hs, List.reverse_reverse, List.reverse_reverse, String.ofList_toList,
        String.ofList_toList]

theorem extensionOf_append {stem ext : String} (hstem : stem ≠ "") (hext : '.' ∉ ext.toList) :
    extensionOf (stem ++ "." ++ ext) = some ext := by rw [extensionOf, splitName_append hstem hext]

theorem stemOf_append {stem ext : String} (hstem : stem ≠ "") (hext : '.' ∉ ext.toList) :
    stemOf (stem ++ "." ++ ext) = stem := by rw [stemOf, splitName_append hstem hext]

/-- A name that has an extension is a stem with that extension. -/
theorem eq_of_extensionOf {name ext : String} (h : extensionOf name = some ext) :
    name = stemOf name ++ "." ++ ext ∧ stemOf name ≠ "" := by
  have hjoin := List.takeWhile_append_dropWhile (p := (· != '.')) (l := name.toList.reverse)
  have hhead := List.head?_dropWhile_not (· != '.') name.toList.reverse
  rw [stemOf]
  rw [extensionOf] at h
  unfold Path.splitName at h ⊢
  rw [List.span_eq_takeWhile_dropWhile] at h ⊢
  generalize name.toList.reverse.takeWhile (· != '.') = kept at h hjoin ⊢
  cases hrest : name.toList.reverse.dropWhile (· != '.') with
  | nil => rw [hrest] at h; cases h
  | cons dot stem =>
      rw [hrest] at h hjoin hhead
      cases stem with
      | nil => cases h
      | cons c cs =>
          cases h
          have hdot : dot = '.' := by simpa using hhead
          have hname : name.toList = (c :: cs).reverse ++ '.' :: kept.reverse := by
            rw [← List.reverse_reverse name.toList, ← hjoin, hdot, List.reverse_append,
              List.reverse_cons, List.append_assoc]
            rfl
          constructor
          · refine String.toList_injective ?_
            simp only [hname, String.toList_append, String.toList_ofList, List.append_assoc]
            rfl
          · intro hempty
            have hnil := congrArg String.toList hempty
            simp at hnil

/-- A name has an extension if it is a stem, a dot and the extension. -/
theorem extensionOf_eq_some_iff {name ext : String} (hext : '.' ∉ ext.toList) :
    extensionOf name = some ext ↔ ∃ stem, stem ≠ "" ∧ name = stem ++ "." ++ ext := by
  constructor
  · intro h
    obtain ⟨hname, hstem⟩ := eq_of_extensionOf h
    exact ⟨stemOf name, hstem, hname⟩
  · rintro ⟨stem, hstem, rfl⟩
    exact extensionOf_append hstem hext

theorem append_extension (stem : String) : stem ++ ".md" = stem ++ "." ++ "md" ∧
    stem ++ ".json" = stem ++ "." ++ "json" := by
  rw [String.append_assoc, String.append_assoc]
  exact ⟨rfl, rfl⟩

theorem extensionOf_eq_md_iff {name : String} :
    extensionOf name = some "md" ↔ ∃ stem, stem ≠ "" ∧ name = stem ++ ".md" := by
  rw [extensionOf_eq_some_iff (by decide)]
  simp only [(append_extension _).1]

/-- A file holds the context of a page if it has the stem of one in the same folder. -/
theorem isCompanion_iff {siblings : List (String × Entry)} {name : String} :
    isCompanion siblings name = true ↔ ∃ stem, stem ≠ "" ∧ name = stem ++ ".json" ∧
      (fileNamed? (stem ++ ".md") siblings).isSome = true := by
  rw [isCompanion, Bool.and_eq_true, beq_iff_eq]
  constructor
  · rintro ⟨hext, hpage⟩
    obtain ⟨hname, hstem⟩ := eq_of_extensionOf hext
    exact ⟨stemOf name, hstem, by rw [(append_extension _).2]; exact hname, hpage⟩
  · rintro ⟨stem, hstem, rfl, hpage⟩
    rw [(append_extension stem).2, extensionOf_append hstem (by decide),
      stemOf_append hstem (by decide)]
    exact ⟨rfl, hpage⟩

/-! ## Files below a folder -/

/-- No name on the way is hidden. -/
def IsVisible (place : List String) : Prop := ∀ name ∈ place, isHidden name = false

/-- A file among some entries of a folder or below them, that no hidden name leads to.
`siblings` are all entries of the folder, and `around` those of the folder of the file. -/
def FileBelow (siblings entries : List (String × Entry)) :
    List String → String → ByteArray → List (String × Entry) → Prop
  | [], name, bytes, around =>
      (name, .file bytes) ∈ entries ∧ isHidden name = false ∧ around = siblings
  | dir :: dirs, name, bytes, around => ∃ inside, (dir, .folder inside) ∈ entries ∧
      isHidden dir = false ∧ FileBelow inside inside dirs name bytes around

variable {siblings entries around : List (String × Entry)} {dirs : List String} {name : String}
  {bytes : ByteArray}

/-- In a proper folder, a file below it is one at a place without hidden names. -/
theorem fileBelow_iff (h : (Entry.folder entries).Proper) :
    FileBelow entries entries dirs name bytes around ↔ IsVisible (dirs ++ [name]) ∧
      (Entry.folder entries).at? dirs = some (.folder around) ∧
      lookupName name around = some (.file bytes) := by
  induction dirs generalizing entries with
  | nil =>
      rw [FileBelow, ← lookupName_eq_some_iff h.sorted, IsVisible, List.nil_append,
        List.forall_mem_singleton, Entry.at?, Option.some_inj, Entry.folder.injEq]
      constructor
      · rintro ⟨hfile, hname, rfl⟩
        exact ⟨hname, rfl, hfile⟩
      · rintro ⟨hname, rfl, hfile⟩
        exact ⟨hfile, hname, rfl⟩
  | cons dir dirs ih =>
      rw [FileBelow, IsVisible, List.cons_append, List.forall_mem_cons, Entry.at?, Entry.entries]
      constructor
      · rintro ⟨inside, hmem, hdir, hfile⟩
        obtain ⟨hvisible, hat, hlookup⟩ := (ih (h.inside _ hmem)).mp hfile
        rw [(lookupName_eq_some_iff h.sorted).mpr hmem]
        exact ⟨⟨hdir, hvisible⟩, hat, hlookup⟩
      · rintro ⟨⟨hdir, hvisible⟩, hat, hlookup⟩
        obtain ⟨x, hx, hat⟩ := Option.bind_eq_some_iff.mp hat
        have hmem := lookupName_eq_some hx
        cases x with
        | file b => cases dirs <;> cases hat
        | folder inside =>
            exact ⟨inside, hmem, hdir, (ih (h.inside _ hmem)).mpr ⟨hvisible, hat, hlookup⟩⟩

/-- The file by a name in the folder at a place. -/
theorem file?_eq_fileNamed? (hat : (Entry.folder entries).at? dirs = some (.folder around))
    (name : String) :
    (Entry.folder entries).file? (dirs ++ [name]) = fileNamed? name around := by
  rw [Entry.file?, Entry.at?_append, hat, Option.bind_some, Entry.at?, Entry.entries, fileNamed?]
  cases lookupName name around <;> rfl

theorem fileNamed?_eq_some_iff : fileNamed? name entries = some bytes ↔
    lookupName name entries = some (.file bytes) := by
  rw [fileNamed?]
  split
  next h => rw [h, Option.some_inj, Option.some_inj, Entry.file.injEq]
  next hne =>
    constructor
    · intro h
      cases h
    · intro h
      exact absurd h (hne bytes)

/-- The files below a proper folder are those at places without hidden names. -/
theorem exists_fileBelow_iff (h : (Entry.folder entries).Proper) :
    (∃ around, FileBelow entries entries dirs name bytes around) ↔
      IsVisible (dirs ++ [name]) ∧ (Entry.folder entries).file? (dirs ++ [name]) = some bytes := by
  simp only [fileBelow_iff h]
  constructor
  · rintro ⟨around, hvisible, hat, hlookup⟩
    exact ⟨hvisible, by rw [file?_eq_fileNamed? hat, fileNamed?_eq_some_iff, hlookup]⟩
  · rintro ⟨hvisible, hfile⟩
    rw [Entry.file?_eq_some_iff] at hfile
    obtain ⟨around, hat, hlookup⟩ := Entry.exists_folder_of_at? hfile
    exact ⟨around, hvisible, hat, hlookup⟩

end PageLoom
