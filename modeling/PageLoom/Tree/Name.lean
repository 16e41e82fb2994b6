import PageLoom.Text.Blank

/-!
# Names of pages and documents

A name addresses one node among its siblings: it is not empty, has no `/`, and is
neither `.` nor `..`.  What is stored on disk under a name is called after it, but
without the characters that file systems refuse, and with `_` for each blank.

A name can be used if something is left of it on disk.
-/

namespace PageLoom

/-- Whether a text can address a node. -/
def IsNodeName (name : String) : Prop :=
  name ≠ "" ∧ '/' ∉ name.toList ∧ name ≠ "." ∧ name ≠ ".."

instance (name : String) : Decidable (IsNodeName name) :=
  inferInstanceAs (Decidable (_ ∧ _ ∧ _ ∧ _))

/-- Whether file names go without a character. -/
def isForbidden (c : Char) : Bool :=
  c ∈ ['<', '>', ':', '|', '?', '*', '#', '\\', '/', '"', '(', ')', '[', ']', '\t', '\r', '\n']

/-- The name on disk of what is called `name`. -/
def diskName (name : String) : String :=
  String.ofList (((trim name.toList).filter (!isForbidden ·)).map fun c =>
    if isBlank c then '_' else c)

theorem slash_not_mem_diskName (name : String) : '/' ∉ (diskName name).toList := by
  simp only [diskName, String.toList_ofList, List.mem_map, List.mem_filter, not_exists, not_and]
  rintro c ⟨_, hc⟩ h
  split at h
  · exact absurd h (by decide)
  · subst h
    exact absurd hc (by decide)

/-- Whether a text can be the name of a node. -/
def IsUsableName (name : String) : Prop := IsNodeName name ∧ diskName name ≠ ""

instance (name : String) : Decidable (IsUsableName name) :=
  inferInstanceAs (Decidable (_ ∧ _))

/-- Whether a text can name a file or a folder inside another one. -/
def IsEntryName (name : String) : Prop := name ≠ "" ∧ '/' ∉ name.toList

theorem IsUsableName.isEntryName {name : String} (h : IsUsableName name) : IsEntryName name :=
  ⟨h.1.1, h.1.2.1⟩

theorem IsUsableName.isEntryName_diskName {name : String} (h : IsUsableName name) :
    IsEntryName (diskName name) := ⟨h.2, slash_not_mem_diskName name⟩

/-- The name on disk of a page that is called `name`. -/
def pageFile (name : String) : String := diskName name ++ ".html"

theorem isEntryName_pageFile (name : String) : IsEntryName (pageFile name) := by
  constructor
  · intro h
    simpa [pageFile] using congrArg String.toList h
  · rw [pageFile, String.toList_append, List.mem_append, not_or]
    exact ⟨slash_not_mem_diskName name, by decide⟩

end PageLoom
