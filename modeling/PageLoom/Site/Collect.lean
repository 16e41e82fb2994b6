import PageLoom.Config.Context
import PageLoom.Site.Error

/-!
# Collecting a site

A folder of content becomes a document.  In it, every file with the extension `md`
becomes a page, and a folder with pages becomes a document of its own.  A file with the
extension `json` next to a page of the same stem holds the context of that page, which
comes before the context of the site.  All other files are copied as they are.  What
has a name that starts with a dot is left out.

The title of a page is its first heading of the first level.
-/

namespace PageLoom

/-! ## Names and titles -/

/-- Whether an entry is left out. -/
def isHidden (name : String) : Bool := name.toList.head? == some '.'

/-- The stem of a name. -/
def stemOf (name : String) : String := (Path.splitName name).1

/-- The extension of a name. -/
def extensionOf (name : String) : Option String := (Path.splitName name).2

/-- The text behind the mark of a heading of the first level. -/
def headingText? : List Char → Option (List Char)
  | '#' :: ' ' :: text => some text
  | _ => none

/-- The text of the first heading of the first level, if it has one. -/
def headingTitle? (template : String) : Option String :=
  match (linesOf template.toList).findSome? headingText? with
  | none => none
  | some text => if (trim text).isEmpty then none else some (String.ofList (trim text))

/-! ## Pages -/

/-- The file that is called `name`, among the entries of a folder. -/
def fileNamed? (name : String) (entries : List (String × Entry)) : Option ByteArray :=
  match lookupName name entries with
  | some (.file bytes) => some bytes
  | _ => none

/-- The context of the page with the stem `stem` in the folder `dir`. -/
def pageContext (site : Context) (dir : Path) (stem : String) (siblings : List (String × Entry)) :
    Except ConfigError Context :=
  let name := stem ++ ".json"
  match fileNamed? name siblings with
  | none => .ok site
  | some bytes =>
      (contextOf (dir.join name) (textOf bytes)).map fun own => site.insertAll own.entries

/-- The page of a file. -/
def pageOfFile (site : Context) (dir : Path) (siblings : List (String × Entry)) (name : String)
    (bytes : ByteArray) : Except SiteError Page := do
  let template ← (textOf bytes).mapError (.cannotRead (dir.join name))
  let context ← (pageContext site dir (stemOf name) siblings).mapError .config
  let p ← (Page.ofName? (stemOf name) template).mapError (.badPageName (dir.join name))
  return { p with context, title := headingTitle? template }

/-! ## Folders -/

/-- What was collected so far. -/
structure Collected where
  tree : Tree := {}
  /-- The number of pages. -/
  pages : Nat := 0
  /-- The files to be copied, and where to. -/
  copies : List (Path × Path) := []

namespace Collected

/-- Add a page. -/
def addPage (c : Collected) (p : Page) : Collected :=
  { c with tree := c.tree.addPage p, pages := c.pages + 1 }

/-- Add a file to be copied. -/
def addCopy (c : Collected) (source target : Path) : Collected :=
  { c with copies := c.copies ++ [(source, target)] }

/-- Add the document of the folder `dir`, unless it has no children, and tell its id. -/
def addDocument (c : Collected) (d : Document) (dir : Path) (children : List Nat) :
    Except SiteError (Collected × Option Nat) :=
  if children.isEmpty then .ok (c, none)
  else
    match c.tree.addDocument d children with
    | .ok t => .ok ({ c with tree := t }, some c.tree.size)
    | .error e => .error (.badDocument dir e)

end Collected

/-- Whether a file holds the context of a page next to it. -/
def isCompanion (siblings : List (String × Entry)) (name : String) : Bool :=
  extensionOf name == some "json" && (fileNamed? (stemOf name ++ ".md") siblings).isSome

/-- Collect the entries of the folder `dir`, whose files go to `out`, and tell the ids of
the children of its document.  `siblings` are all entries of the folder. -/
def collectEntries (site : Context) (dir out : Path) (siblings : List (String × Entry))
    (c : Collected) : List (String × Entry) → Except SiteError (Collected × List Nat)
  | [] => .ok (c, [])
  | (name, .folder inside) :: rest =>
      if isHidden name then collectEntries site dir out siblings c rest
      else do
        let d ← (Document.ofName? name).mapError (.badFolderName (dir.join name))
        let (c, ids) ← collectEntries site (dir.join name) (out.join d.folder) inside c inside
        let (c, id) ← c.addDocument d (dir.join name) ids
        let (c, ids) ← collectEntries site dir out siblings c rest
        return (c, id.toList ++ ids)
  | (name, .file bytes) :: rest =>
      if isHidden name then collectEntries site dir out siblings c rest
      else if extensionOf name == some "md" then do
        let p ← pageOfFile site dir siblings name bytes
        let id := c.tree.size
        let (c, ids) ← collectEntries site dir out siblings (c.addPage p) rest
        return (c, id :: ids)
      else if isCompanion siblings name then collectEntries site dir out siblings c rest
      else
        collectEntries site dir out siblings (c.addCopy (dir.join name) (out.join name)) rest
termination_by entries => sizeOf entries
decreasing_by
  all_goals
    simp only [List.cons.sizeOf_spec, Prod.mk.sizeOf_spec, Entry.folder.sizeOf_spec]
    omega

/-- Collect the site in the folder `content`, whose files go to `out`, and tell the id of
its root, which is called `name`. -/
def collectSite (site : Context) (content out : Path) (name : String)
    (listed : Except DiskError (List (String × Entry))) : Except SiteError (Collected × Nat) := do
  let d ← (Document.ofName? name).mapError .badRootName
  let entries ← listed.mapError (.cannotList content)
  let (c, ids) ← collectEntries site content out entries {} entries
  match ← c.addDocument d content ids with
  | (c, some root) => return (c, root)
  | (_, none) => throw (.noPages content)

end PageLoom
