import PageLoom.Text.Segments
import PageLoom.Tree.Basic

/-!
# Paths in a tree

The path of a node joins the names from the root of its tree down to it.  Its path
on disk joins the names of folders and files, and that of a document is the one of
its index.

`relativePath` leads from one file to another: up from the folder of the first file
to the last folder that both paths share, and down from there.  Paths that share no
folder are not made relative, and the way from a file to itself is empty.
-/

namespace PageLoom

/-! ## Relative paths -/

/-- The number of segments that two paths share at the start. -/
def sharedCount : List String → List String → Nat
  | a :: as, b :: bs => if a = b then sharedCount as bs + 1 else 0
  | _, _ => 0

/-- The way from the folder `dir` to the file `target`. -/
def relativeSegments (dir target : List String) : List String :=
  let shared := sharedCount dir target
  if shared = 0 then target
  else List.replicate (dir.length - shared) ".." ++ target.drop shared

/-- The way from one file to another. -/
def relativePath (source target : String) : String :=
  if source = target then ""
  else pathOf (relativeSegments (segmentsOf source).dropLast (segmentsOf target))

namespace Tree

/-! ## Up -/

/-- A node and the documents that it is in, innermost first.  A parent has a greater
id than its child. -/
def climb (t : Tree) (id : Nat) : List Nat :=
  match _h : t.get? id with
  | none => []
  | some n =>
      id ::
        match n.parent with
        | some p => if id < p then t.climb p else []
        | none => []
termination_by t.size - id
decreasing_by
  have := lt_size_of_get? _h
  omega

/-- The root of the tree that a node is in. -/
def rootOf (t : Tree) (id : Nat) : Except TreeError Nat :=
  match (t.climb id).getLast? with
  | some root => .ok root
  | none => .error (.unknownNode id)

/-- The nodes from the root down to a node. -/
def ancestry (t : Tree) (id : Nat) : Except TreeError (List TreeNode) :=
  match t.climb id with
  | [] => .error (.unknownNode id)
  | ids => .ok (ids.reverse.filterMap t.get?)

/-- The path of a node. -/
def logicalPath (t : Tree) (id : Nat) : Except TreeError String :=
  (t.ancestry id).map fun nodes => pathOf (nodes.map TreeNode.name)

/-- The path on disk of a node itself. -/
def entryPath (t : Tree) (id : Nat) : Except TreeError String :=
  (t.ancestry id).map fun nodes => pathOf (nodes.map TreeNode.entry)

/-- The path on disk of a page, or of the index of a document. -/
def physicalPath (t : Tree) (id : Nat) : Except TreeError String :=
  match t.node id with
  | .error e => .error e
  | .ok n =>
      match n.item with
      | .page _ => t.entryPath id
      | .document d =>
          match t.indexOf? id with
          | some index => t.entryPath index
          | none => .error (.indexCount d.name 0)

/-! ## Down -/

/-- The child of a node that has a name. -/
def child? (t : Tree) (id : Nat) (name : String) : Option Nat :=
  (t.get? id).bind fun n => n.children.find? fun c => (t.get? c).any (·.name == name)

/-- Follow names down from a node. -/
def descend? (t : Tree) (id : Nat) : List String → Option Nat
  | [] => some id
  | name :: names => (t.child? id name).bind fun c => t.descend? c names

/-- The node at a path from a root.  The path starts with the name of the root. -/
def find (t : Tree) (root : Nat) (path : String) : Except TreeError Nat :=
  match t.node root with
  | .error e => .error e
  | .ok n =>
      match segmentsOf path with
      | [] => .error (.pathNotFound path)
      | name :: names =>
          if name = n.name then
            match t.descend? root names with
            | some id => .ok id
            | none => .error (.pathNotFound path)
          else .error (.pathNotFound path)

/-! ## Links -/

/-- The reference from a page to the node at a path of its tree. -/
def linkTarget (t : Tree) (source : Nat) (path : String) : Except TreeError String :=
  match t.rootOf source with
  | .error e => .error e
  | .ok root =>
      match t.find root path with
      | .error e => .error e
      | .ok target =>
          match t.physicalPath source, t.physicalPath target with
          | .ok a, .ok b => .ok (relativePath a b)
          | .error e, _ => .error e
          | _, .error e => .error e

end Tree

end PageLoom
