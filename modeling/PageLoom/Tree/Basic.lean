import PageLoom.Tree.Error
import PageLoom.Tree.Name
import PageLoom.Value.Context

/-!
# Trees of pages and documents

A tree holds nodes, and the id of a node is the number of nodes that were there
before it.  A page is added alone.  A document is added with its children, which
must be nodes that belong to no document yet: so every node gets its parent at
most once, and a child always has a smaller id than its parent.

The children of a document have different names, are stored under different names,
and exactly one of them is an index: the page that stands for the document.  A
document whose children break one of these rules leaves the tree as it was.
-/

namespace PageLoom

/-! ## Pages and documents -/

/-- A page of a tree. -/
structure Page where
  /-- The name that addresses it. -/
  name : String
  /-- The name of its file. -/
  file : String
  /-- Whether it stands for its document. -/
  isIndex : Bool
  /-- The Markdown of its article. -/
  template : String
  /-- The context of the calls in its article. -/
  context : Context := .empty
  /-- Its title, if it has one besides its name. -/
  title : Option String := none
  /-- Resources that its head links to. -/
  resources : List String := []
  isNodeName_name : IsNodeName name
  isEntryName_file : IsEntryName file

/-- A document of a tree. -/
structure Document where
  /-- The name that addresses it. -/
  name : String
  /-- The name of its folder. -/
  folder : String
  isNodeName_name : IsNodeName name
  isEntryName_folder : IsEntryName folder

/-- The name of pages that are an index unless told otherwise. -/
def indexName : String := "index"

namespace Page

/-- A page that is stored under its name. -/
def ofName? (name template : String) : Except TreeError Page :=
  if h : IsUsableName name then
    .ok { name, template, file := pageFile name, isIndex := name == indexName
          isNodeName_name := h.1, isEntryName_file := isEntryName_pageFile name }
  else .error (.invalidName name)

/-- Store a page under another name. -/
def storedAs? (p : Page) (file : String) : Except TreeError Page :=
  if h : IsUsableName file then .ok { p with file, isEntryName_file := h.isEntryName }
  else .error (.invalidName file)

end Page

namespace Document

/-- A document that is stored under its name. -/
def ofName? (name : String) : Except TreeError Document :=
  if h : IsUsableName name then
    .ok { name, folder := diskName name
          isNodeName_name := h.1, isEntryName_folder := h.isEntryName_diskName }
  else .error (.invalidName name)

/-- Store a document under another name. -/
def storedAs? (d : Document) (folder : String) : Except TreeError Document :=
  if h : IsUsableName folder then .ok { d with folder, isEntryName_folder := h.isEntryName }
  else .error (.invalidName folder)

end Document

/-! ## Nodes -/

/-- A page or a document. -/
inductive Item
  | page (p : Page)
  | document (d : Document)

namespace Item

/-- The name that addresses an item. -/
def name : Item → String
  | .page p => p.name
  | .document d => d.name

/-- The name of the file or the folder of an item. -/
def entry : Item → String
  | .page p => p.file
  | .document d => d.folder

/-- Whether an item is an index. -/
def isIndex : Item → Bool
  | .page p => p.isIndex
  | .document _ => false

/-- The page that an item is. -/
def page? : Item → Option Page
  | .page p => some p
  | .document _ => none

end Item

/-- A node of a tree. -/
structure TreeNode where
  /-- What it is. -/
  item : Item
  /-- The id of the document it belongs to. -/
  parent : Option Nat := none
  /-- The ids of its children. -/
  children : List Nat := []

namespace TreeNode

/-- The name that addresses a node. -/
abbrev name (n : TreeNode) : String := n.item.name

/-- The name of the file or the folder of a node. -/
abbrev entry (n : TreeNode) : String := n.item.entry

/-- Whether a node is an index. -/
abbrev isIndex (n : TreeNode) : Bool := n.item.isIndex

end TreeNode

/-! ## Trees -/

/-- Pages and documents, numbered in the order in which they were added. -/
structure Tree where
  /-- The nodes. -/
  nodes : List TreeNode := []

namespace Tree

/-- A tree without nodes. -/
def empty : Tree := {}

/-- The number of nodes, which is the id of the next one. -/
def size (t : Tree) : Nat := t.nodes.length

/-- The node of an id. -/
def get? (t : Tree) (id : Nat) : Option TreeNode := t.nodes[id]?

/-- The node of an id that must be known. -/
def node (t : Tree) (id : Nat) : Except TreeError TreeNode :=
  match t.get? id with
  | some n => .ok n
  | none => .error (.unknownNode id)

theorem lt_size_of_get? {t : Tree} {id : Nat} {n : TreeNode} (h : t.get? id = some n) :
    id < t.size := (List.getElem?_eq_some_iff.mp h).1

/-- The index of a document. -/
def indexOf? (t : Tree) (document : Nat) : Option Nat :=
  (t.get? document).bind fun n => n.children.find? fun c => (t.get? c).any TreeNode.isIndex

/-- Add an item with its children.  The new node has the id `t.size`. -/
def adopt (t : Tree) (item : Item) (children : List Nat) : Tree where
  nodes := t.nodes.mapIdx (fun id n =>
      if id ∈ children then { n with parent := some t.size } else n) ++ [{ item, children }]

@[simp] theorem size_adopt (t : Tree) (item : Item) (children : List Nat) :
    (t.adopt item children).size = t.size + 1 := by
  simp [adopt, size]

/-- Add a page that belongs to no document.  It has the id `t.size`. -/
def addPage (t : Tree) (p : Page) : Tree := t.adopt (.page p) []

/-- What is wrong with the first child that cannot be added to `document`, given the
children before it. -/
def refusal? (t : Tree) (document : String) (before : List (Nat × TreeNode)) :
    List Nat → Option TreeError
  | [] => none
  | c :: cs =>
      match t.get? c with
      | none => some (.unknownNode c)
      | some n =>
          if n.parent.isSome ∨ before.any (·.1 == c) then some (.attached n.name)
          else if before.any (·.2.name == n.name) then some (.duplicateName document n.name)
          else if before.any (·.2.entry == n.entry) then some (.duplicateFile document n.entry)
          else t.refusal? document ((c, n) :: before) cs

/-- The number of indexes among some nodes. -/
def countIndexes (t : Tree) (ids : List Nat) : Nat :=
  ids.countP fun id => (t.get? id).any TreeNode.isIndex

/-- Add a document with its children.  It has the id `t.size`. -/
def addDocument (t : Tree) (d : Document) (children : List Nat) : Except TreeError Tree :=
  match t.refusal? d.name [] children with
  | some e => .error e
  | none =>
      if t.countIndexes children = 1 then .ok (t.adopt (.document d) children)
      else .error (.indexCount d.name (t.countIndexes children))

end Tree

end PageLoom
