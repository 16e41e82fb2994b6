import PageLoom.Tree.Basic

/-!
# Branches

A branch is a node of a tree together with all that is below it.  Copying a branch
adds its nodes anew, every child before its document, so that the copy of the
branch can be given to a document of its own.
-/

namespace PageLoom

/-- A node with all that is below it. -/
inductive Branch
  | mk (id : Nat) (item : Item) (children : List Branch)

namespace Branch

/-- The id of the topmost node. -/
def id : Branch → Nat
  | ⟨id, _, _⟩ => id

/-- The topmost item. -/
def item : Branch → Item
  | ⟨_, item, _⟩ => item

/-- The branches of the children. -/
def children : Branch → List Branch
  | ⟨_, _, children⟩ => children

end Branch

namespace Tree

/-- The branch of a node.  A child has a smaller id than its parent. -/
def branch? (t : Tree) (id : Nat) : Option Branch :=
  match t.get? id with
  | none => none
  | some n =>
      some ⟨id, n.item, n.children.filterMap fun c => if c < id then t.branch? c else none⟩
termination_by id

mutual
/-- Add the nodes of a branch anew.  The last node added is the copy of the topmost
one. -/
def graft (t : Tree) : Branch → Tree
  | ⟨_, item, children⟩ =>
      let (t, ids) := t.graftAll children
      t.adopt item ids

/-- Add the nodes of some branches anew, with the ids of the topmost copies. -/
def graftAll (t : Tree) : List Branch → Tree × List Nat
  | [] => (t, [])
  | b :: bs =>
      let t := t.graft b
      let (u, ids) := t.graftAll bs
      (u, (t.size - 1) :: ids)
end

/-- Copy a node with all that is below it.  The copy of the node has the last id. -/
def deepCopy (t : Tree) (id : Nat) : Except TreeError Tree :=
  match t.branch? id with
  | none => .error (.unknownNode id)
  | some b => .ok (t.graft b)

end Tree

end PageLoom
