import PageLoom.Function.Builtin
import PageLoom.Site.Collect

/-!
# Building a site

The output folder is removed if the configuration says so, and made.  The content is
collected, its pages are rendered into the output folder, and then the assets and the
other files of the content are copied there.  A step that fails ends the building, and
what was done before it stays done.
-/

namespace PageLoom

/-! ## Work with a log -/

/-- A disk and what was noted so far. -/
structure Desk where
  disk : Disk
  notes : List Note := []

/-- Work on a disk that is noted in a log. -/
abbrev Noted (α : Type) := ExceptT SiteError (StateM Desk) α

namespace Noted

variable {α : Type}

/-- Work that notes nothing. -/
def work {ε : Type} (w : Work ε α) (wrap : ε → SiteError) : Noted α := fun desk =>
  match w desk.disk with
  | (.ok a, d) => (.ok a, { desk with disk := d })
  | (.error e, d) => (.error (wrap e), { desk with disk := d })

/-- Look at the disk. -/
def look (f : Disk → Except SiteError α) : Noted α := fun desk => (f desk.disk, desk)

/-- Note something. -/
def note (topic message : String) : Noted Unit := fun desk =>
  (.ok (), { desk with notes := desk.notes ++ [⟨topic, message⟩] })

end Noted

/-! ## Copies -/

/-- The paths of the files among some entries and below them, starting with `start`. -/
def filesBelow (start : String) : List (String × Entry) → List String
  | [] => []
  | (name, .file _) :: rest => (start ++ name) :: filesBelow start rest
  | (name, .folder inside) :: rest =>
      filesBelow (start ++ name ++ "/") inside ++ filesBelow start rest

/-- The files of the folder `source`, and where they are copied to in `target`.  Without
a folder there are none. -/
def copiesOf (d : Disk) (source target : Path) : List (Path × Path) :=
  match d.list source with
  | .ok entries => (filesBelow "" entries).map fun p => (source.join p, target.join p)
  | .error _ => []

/-- Copy a file, making folders for the copy. -/
def copyFile (source target : Path) : Noted Unit := do
  match target.folder? with
  | some folder => Noted.work (Work.makeFolders folder id) (.cannotMake folder)
  | none => pure ()
  Noted.work (Work.change (·.copy source target) id) (.cannotCopy source target)

/-- Copy files in order. -/
def copyFiles : List (Path × Path) → Noted Unit
  | [] => pure ()
  | (source, target) :: rest => do
      copyFile source target
      copyFiles rest

/-! ## Sites -/

namespace Config

/-- What all pages of a site have in common. -/
def renderOptions (c : Config) (m : Markers) : RenderOptions where
  functions := .builtin
  markers := m
  minify := c.build.minify
  language := c.site.language
  siteTitle := if c.site.title.isEmpty then none else some c.site.title
  head := c.build.head.tags

/-- Prepare the output folder. -/
def prepareOutput (c : Config) : Noted Unit := do
  let output := c.build.output
  if c.build.clean && (← Noted.look fun d => .ok (d.has output)) then
    Noted.work (Work.change (·.removeFolder output) id) (.cannotClean output)
    Noted.note "build" ("cleaned " ++ output.text)
  Noted.work (Work.makeFolders output id) (.cannotMake output)

/-- What is in the folder of the content.  A file holds nothing. -/
def listContent (c : Config) (d : Disk) : Except DiskError (List (String × Entry)) :=
  (d.locate c.build.content).map fun found => found.2.entries

/-- Collect the site. -/
def collect (c : Config) (d : Disk) : Except SiteError (Collected × Nat) := do
  let context ← (c.loadContext d).mapError .config
  collectSite context c.build.content c.build.output c.site.name (c.listContent d)

/-- Build a site, and count its pages. -/
def buildSite (c : Config) (fresh : Fresh) : Noted Nat := do
  c.prepareOutput
  let (site, root) ← Noted.look c.collect
  Noted.note "build" ("found " ++ toString site.pages ++ " pages")
  let m ← Noted.look fun _ => c.markers.mapError .config
  let pages ← Noted.work
    (site.tree.renderInto (c.renderOptions m) fresh root c.build.output) .rendering
  let assets ← Noted.look fun d => .ok (copiesOf d c.build.assets c.build.output)
  copyFiles assets
  copyFiles site.copies
  Noted.note "build" ("rendered " ++ toString pages ++ " pages, copied " ++
    toString (assets.length + site.copies.length) ++ " files")
  return pages

end Config

end PageLoom
