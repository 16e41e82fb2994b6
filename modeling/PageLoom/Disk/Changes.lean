import PageLoom.Disk.Basic

/-!
# Changes between disks

What it takes to make one entry into another: removing what is gone, making folders
that are new, and writing files that are new or have another content.  What is the same
in both is left alone.
-/

namespace PageLoom

/-- A change at a place. -/
inductive Change
  | remove (place : List String)
  | makeFolder (place : List String)
  | write (place : List String) (bytes : ByteArray)

namespace Entry

/-- What is in an entry, and is not in the other. -/
def gone (place : List String) (old new : List (String × Entry)) : List Change :=
  (old.filter fun e => (lookupName e.1 new).isNone).map fun e => .remove (place ++ [e.1])

/-- What it takes to have a folder at a place, and what is in it then. -/
def asFolder (place : List String) : Option Entry → List Change × List (String × Entry)
  | some (.folder entries) => ([], entries)
  | some (.file _) => ([.remove place, .makeFolder place], [])
  | none => ([.makeFolder place], [])

/-- What it takes to have a file at a place. -/
def asFile (place : List String) (bytes : ByteArray) : Option Entry → List Change
  | some (.file old) => if old == bytes then [] else [.write place bytes]
  | some (.folder _) => [.remove place, .write place bytes]
  | none => [.write place bytes]

mutual
/-- What it takes to make the entry at a place into another one. -/
def changes (place : List String) (old : Option Entry) : Entry → List Change
  | .file bytes => asFile place bytes old
  | .folder entries =>
      let (made, before) := asFolder place old
      made ++ gone place before entries ++ changesIn place before entries

/-- What it takes to make the entries of a folder into others, besides removing. -/
def changesIn (place : List String) (old : List (String × Entry)) :
    List (String × Entry) → List Change
  | [] => []
  | (name, e) :: rest =>
      e.changes (place ++ [name]) (lookupName name old) ++ changesIn place old rest
end

end Entry

/-- What it takes to make a disk into another one. -/
def Disk.changes (old new : Disk) : List Change := new.top.changes [] (some old.top)

end PageLoom
