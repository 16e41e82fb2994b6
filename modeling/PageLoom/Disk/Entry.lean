import PageLoom.NameMap

/-!
# Files and folders

An entry is a file or a folder of named entries.  A place is the list of the names
that lead from a folder down to an entry.  Putting an entry at a place changes what
is found there and below, and nothing beside.
-/

namespace PageLoom

/-- A file, or a folder with what is in it, sorted by name. -/
inductive Entry
  | file (bytes : ByteArray)
  | folder (entries : List (String × Entry))
deriving Inhabited

namespace Entry

/-- What is in a folder.  A file holds no entries. -/
def entries : Entry → List (String × Entry)
  | .file _ => []
  | .folder entries => entries

/-- Whether an entry is a folder. -/
def isFolder : Entry → Bool
  | .file _ => false
  | .folder _ => true

/-- The entry at a place. -/
def at? (e : Entry) : List String → Option Entry
  | [] => some e
  | name :: rest => (lookupName name e.entries).bind fun child => child.at? rest

/-- Put an entry at a place, if there is a folder for it. -/
def put (e : Entry) (place : List String) (new : Entry) : Entry :=
  match place, e with
  | [], _ => new
  | _ :: _, .file bytes => .file bytes
  | [name], .folder entries => .folder (insertName name new entries)
  | name :: rest, .folder entries =>
      match lookupName name entries with
      | some child => .folder (insertName name (child.put rest new) entries)
      | none => .folder entries
termination_by structural place

/-- Remove the entry at a place. -/
def remove (e : Entry) (place : List String) : Entry :=
  match place, e with
  | [], e => e
  | _ :: _, .file bytes => .file bytes
  | [name], .folder entries => .folder (entries.filter (·.1 != name))
  | name :: rest, .folder entries =>
      match lookupName name entries with
      | some child => .folder (insertName name (child.remove rest) entries)
      | none => .folder entries
termination_by structural place

theorem at?_append (e : Entry) (place rest : List String) :
    e.at? (place ++ rest) = (e.at? place).bind fun child => child.at? rest := by
  induction place generalizing e with
  | nil => rfl
  | cons name place ih =>
      simp only [List.cons_append, at?]
      cases lookupName name e.entries with
      | none => rfl
      | some child => simpa using ih child

/-- What was put is found. -/
theorem at?_put {new e : Entry} {place : List String} {name : String} {es : List (String × Entry)}
    (h : e.at? place = some (.folder es)) :
    (e.put (place ++ [name]) new).at? (place ++ [name]) = some new := by
  induction place generalizing e with
  | nil =>
      cases h
      simp [put, at?, entries, lookupName_insertName]
  | cons first place ih =>
      cases e with
      | file bytes => simp [at?, entries, lookupName] at h
      | folder es' =>
          simp only [at?, entries] at h
          cases hc : lookupName first es' with
          | none => simp [hc] at h
          | some child =>
              rw [hc, Option.bind_some] at h
              cases place <;>
                simpa [put, hc, at?, entries, lookupName_insertName] using ih h

end Entry

end PageLoom
