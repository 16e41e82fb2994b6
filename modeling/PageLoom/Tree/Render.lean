import PageLoom.Markup.Output
import PageLoom.Tree.Branch
import PageLoom.Tree.Path

/-!
# Rendering a tree

Every page of a branch becomes a file, and every document a folder.  The index of a
document comes before its other children.  `Branch.steps` lists what is to be made,
in order; rendering takes these steps up to the first that fails.

On every page the function `link` makes a link to another node of its tree.
-/

namespace PageLoom

/-- What all pages of a rendering have in common. -/
structure RenderOptions where
  /-- The functions that articles can call, besides `link`. -/
  functions : FunctionTable
  /-- The markers of calls. -/
  markers : Markers := .standard
  /-- Whether markup is made smaller. -/
  minify : Bool := false
  /-- The language of the pages. -/
  language : String := defaultLanguage
  /-- What comes after the title of every page. -/
  siteTitle : Option String := none
  /-- Elements at the end of every head. -/
  head : List Tag := []

/-- Why a branch is not rendered. -/
inductive RenderError
  | tree (e : TreeError)
  /-- A file or a folder of the branch cannot be made. -/
  | output (path : Path) (e : OutputError)
deriving Repr

/-- The message of an error. -/
def RenderError.message : RenderError → String
  | .tree e => e.message
  | .output path e => "failed to render `" ++ path.text ++ "`: " ++ e.message

/-! ## Titles and heads -/

/-- The title of a page as its head shows it. -/
def Page.fullTitle (p : Page) (siteTitle : Option String) : String :=
  let title := p.title.getD p.name
  match siteTitle with
  | some site => title ++ " | " ++ site
  | none => title

/-- An article as a page of its own. -/
def articlePage (a : Article) (title language : String) (head : List Tag) : Node :=
  let own : List Tag := [.metadata [("charset", "utf-8")], .title title]
  .page (.nested "body" [] [.article a] []) ((own ++ head).map .tag) language

namespace Tree

/-! ## Links -/

/-- The text of a link to a path that has none of its own: the title of the page that
the link leads to, or the name of the node. -/
def linkText (t : Tree) (source : Nat) (path : String) : String :=
  let target : Except TreeError String := do
    let root ← t.rootOf source
    let target ← t.find root path
    let n ← t.node target
    match n.item with
    | .page p => return p.title.getD n.name
    | .document _ =>
        match ((t.indexOf? target).bind t.get?).bind (·.item.page?) with
        | some p => return p.title.getD n.name
        | none => return path
  match target with
  | .ok text => text
  | .error _ => path

/-- Make a link from a page to the node at the path `to`. -/
def link (t : Tree) (source : Nat) (args : Arguments) : Except FunctionError Fragment := do
  let path ← args.string "to"
  let href ← (t.linkTarget source path).mapError fun e => .host e.message
  let text := (← args.string? "text").getD (t.linkText source path)
  return ({ name := "a", attrs := [("href", href)] : Tag }.withText text).fragment

/-! ## Pages -/

/-- The article of a page. -/
def article (t : Tree) (o : RenderOptions) (id : Nat) (p : Page) : Article where
  template := p.template
  context := p.context
  functions := o.functions.layered.register "link" fun _ args => t.link id args
  markers := o.markers
  resources := p.resources

/-- A page as it is rendered. -/
def pageNode (t : Tree) (o : RenderOptions) (id : Nat) (p : Page) : Node :=
  articlePage (t.article o id p) (p.fullTitle o.siteTitle) o.language o.head

end Tree

/-! ## Steps -/

/-- A folder or a page that is to be made. -/
inductive Step
  | folder (path : Path)
  | page (path : Path) (id : Nat) (p : Page)

/-- What belongs to the first index, and then the rest. -/
def indexFirst {α : Type} (parts : List (Bool × α)) : List α :=
  ((parts.find? (·.1)).toList ++ parts.eraseP (·.1)).map (·.2)

mutual
/-- What is to be made of a branch in the folder `dir`. -/
def Branch.steps (dir : Path) : Branch → List Step
  | ⟨id, .page p, _⟩ => [.page (dir.join p.file) id p]
  | ⟨_, .document d, children⟩ =>
      let dir := dir.join d.folder
      .folder dir :: (indexFirst (Branch.parts dir children)).flatten

/-- What is to be made of each of some branches, and whether it is an index. -/
def Branch.parts (dir : Path) : List Branch → List (Bool × List Step)
  | [] => []
  | ⟨id, item, children⟩ :: bs =>
      (item.isIndex, Branch.steps dir ⟨id, item, children⟩) :: Branch.parts dir bs
end

namespace Tree

/-- Take a step.  Each page has a supply of identifiers of its own. -/
def take (t : Tree) (o : RenderOptions) (fresh : Fresh) : Step → Work RenderError Nat
  | .folder path => do
      Work.makeFolders path fun e => .output path (.disk path e)
      return 0
  | .page path id p => do
      let _ ← ((t.pageNode o id p).output path o.minify (fresh.below id)).mapError (.output path)
      return 1

/-- Take steps in order, and count the pages. -/
def takeAll (t : Tree) (o : RenderOptions) (fresh : Fresh) : List Step → Work RenderError Nat
  | [] => return 0
  | s :: ss => do
      let n ← t.take o fresh s
      let m ← t.takeAll o fresh ss
      return n + m

/-- The branch of a node that must be known. -/
def branch (t : Tree) (id : Nat) : Except TreeError Branch :=
  match t.branch? id with
  | some b => .ok b
  | none => .error (.unknownNode id)

/-- Render a node into the folder `dir`, and count the pages. -/
def render (t : Tree) (o : RenderOptions) (fresh : Fresh) (id : Nat) (dir : Path) :
    Work RenderError Nat := do
  let b ← Work.ofExcept ((t.branch id).mapError .tree)
  t.takeAll o fresh (b.steps dir)

/-- Render the children of a node into the folder `dir`, and count the pages. -/
def renderInto (t : Tree) (o : RenderOptions) (fresh : Fresh) (id : Nat) (dir : Path) :
    Work RenderError Nat := do
  let b ← Work.ofExcept ((t.branch id).mapError .tree)
  t.takeAll o fresh (indexFirst (Branch.parts dir b.children)).flatten

end Tree

end PageLoom
