import PageLoom.Proofs.Tree.Address
import PageLoom.Proofs.Tree.Copy
import Mathlib.Logic.Relation

/-!
# What holds of every tree

A tree is made from the empty one by changes: pages and documents are added, and nodes
are copied.  A change that is refused leaves the tree as it was.  Every change keeps a
tree well-formed (`WellFormed.change`), so every tree that changes make is well-formed
(`wellFormed_make`).

`Tree.Consistent` says what this comes to for those who use a tree: both directions of
its links agree and lead to an end, documents have the children they need, and every
node has a root, a path and a page.  It holds after all changes (`consistent_make`).
-/

namespace PageLoom

/-! ## Pages and documents as they are constructed -/

/-- Pages that are constructed by name, and then told more. -/
inductive Page.Made : Page → Prop
  | ofName {name template : String} {p : Page} (h : Page.ofName? name template = .ok p) : Made p
  | storedAs {p q : Page} {file : String} (hp : Made p) (h : p.storedAs? file = .ok q) : Made q
  | asIndex {p : Page} (hp : Made p) (isIndex : Bool) : Made { p with isIndex }
  | context {p : Page} (hp : Made p) (context : Context) : Made { p with context }
  | title {p : Page} (hp : Made p) (title : String) : Made { p with title := some title }
  | resource {p : Page} (hp : Made p) (resource : String) :
      Made { p with resources := p.resources ++ [resource] }

/-- Documents that are constructed by name, and then told more. -/
inductive Document.Made : Document → Prop
  | ofName {name : String} {d : Document} (h : Document.ofName? name = .ok d) : Made d
  | storedAs {d e : Document} {folder : String} (hd : Made d) (h : d.storedAs? folder = .ok e) :
      Made e

/-- Entries that name something in their folder, and not the folder or the one above. -/
def IsPlainEntry (entry : String) : Prop := entry ≠ "." ∧ entry ≠ ".."

theorem isPlainEntry_pageFile (name : String) : IsPlainEntry (pageFile name) := by
  have hlong : ∀ short : String, short.length < 5 → pageFile name ≠ short := fun short hs he => by
    have hlen := congrArg String.length he
    rw [pageFile, String.length_append] at hlen
    have : ".html".length = 5 := rfl
    omega
  exact ⟨hlong "." (by decide), hlong ".." (by decide)⟩

/-- The file of a constructed page is plain. -/
theorem Page.Made.isPlainEntry {p : Page} (h : p.Made) : IsPlainEntry p.file := by
  induction h with
  | ofName h =>
      unfold Page.ofName? at h
      split at h
      next =>
        cases h
        exact isPlainEntry_pageFile _
      next => cases h
  | storedAs _ h =>
      unfold Page.storedAs? at h
      split at h
      next hname =>
        cases h
        exact ⟨hname.1.2.2.1, hname.1.2.2.2⟩
      next => cases h
  | asIndex _ _ ih => exact ih
  | context _ _ ih => exact ih
  | title _ _ ih => exact ih
  | resource _ _ ih => exact ih

namespace Tree

/-! ## Changes -/

/-- A change of a tree. -/
inductive Change
  /-- Add a page. -/
  | page (p : Page)
  /-- Add a document above the nodes `children`. -/
  | document (d : Document) (children : List Nat)
  /-- Copy a node with all that is below it. -/
  | copy (id : Nat)

/-- Whether an item that a change adds has the property `P`. -/
def Change.Adds (P : Item → Prop) : Change → Prop
  | .page p => P (.page p)
  | .document d _ => P (.document d)
  | .copy _ => True

/-- Whether a change adds only what is constructed, and no document whose folder is the
one that it is in or the one above. -/
def Change.Constructed : Change → Prop
  | .page p => p.Made
  | .document d _ => d.Made ∧ IsPlainEntry d.folder
  | .copy _ => True

theorem Change.Constructed.adds {c : Change} (h : c.Constructed) :
    c.Adds fun item => IsPlainEntry item.entry := by
  cases c with
  | page p => exact Page.Made.isPlainEntry h
  | document d children => exact h.2
  | copy id => trivial

/-- Make a change.  One that is refused leaves the tree as it was. -/
def change (t : Tree) : Change → Tree
  | .page p => t.addPage p
  | .document d children =>
      match t.addDocument d children with
      | .ok u => u
      | .error _ => t
  | .copy id =>
      match t.deepCopy id with
      | .ok u => u
      | .error _ => t

/-- The tree that changes make, one after the other. -/
def make (changes : List Change) : Tree := changes.foldl change .empty

variable {P : Item → Prop} {t : Tree}

/-- Every change keeps a tree well-formed. -/
theorem WellFormed.change (h : t.WellFormed P) {c : Change} (hc : c.Adds P) :
    (t.change c).WellFormed P := by
  cases c with
  | page p => exact h.addPage hc
  | document d children =>
      rw [Tree.change]
      split
      next u hu => exact h.addDocument hu hc
      next => exact h
  | copy id =>
      rw [Tree.change]
      by_cases hid : id < t.size
      · obtain ⟨item, u, -, hu, hgrown⟩ := h.deepCopy hid
        rw [hu]
        exact hgrown.wellFormed
      · rw [deepCopy_eq_error (Nat.not_lt.mp hid)]
        exact h

theorem WellFormed.changeAll (h : t.WellFormed P) {changes : List Change}
    (hc : ∀ c ∈ changes, c.Adds P) : (changes.foldl Tree.change t).WellFormed P := by
  induction changes generalizing t with
  | nil => exact h
  | cons c cs ih =>
      exact ih (h.change (hc c (.head _))) fun d hd => hc d (.tail _ hd)

/-- No change takes away a node, or changes what it is or what its children are. -/
theorem WellFormed.keeps_change (h : t.WellFormed P) (c : Change) : t.Keeps (t.change c) := by
  cases c with
  | page p => exact keeps_adopt t _ _
  | document d children =>
      rw [Tree.change]
      split
      next u hu =>
        obtain ⟨-, -, rfl⟩ := of_addDocument_eq_ok hu
        exact keeps_adopt t _ _
      next => exact (Extends.refl t).keeps
  | copy id =>
      rw [Tree.change]
      by_cases hid : id < t.size
      · obtain ⟨item, u, -, hu, hgrown⟩ := h.deepCopy hid
        rw [hu]
        exact hgrown.kept.keeps
      · rw [deepCopy_eq_error (Nat.not_lt.mp hid)]
        exact (Extends.refl t).keeps

theorem WellFormed.keeps_changeAll (h : t.WellFormed P) {changes : List Change}
    (hc : ∀ c ∈ changes, c.Adds P) : t.Keeps (changes.foldl Tree.change t) := by
  induction changes generalizing t with
  | nil => exact (Extends.refl t).keeps
  | cons c cs ih =>
      exact (h.keeps_change c).trans
        (ih (h.change (hc c (.head _))) fun d hd => hc d (.tail _ hd))

/-- Every tree that changes make is well-formed, and its items are those added. -/
theorem wellFormed_make {changes : List Change} (hc : ∀ c ∈ changes, c.Adds P) :
    (make changes).WellFormed P := WellFormed.empty.changeAll hc

/-! ## The links lead to an end -/

/-- Following parent links, the ids grow. -/
theorem WellFormed.lt_of_transGen (h : t.WellFormed P) {a b : Nat}
    (hab : Relation.TransGen (fun c d => t.parent? c = some d) a b) : a < b := by
  induction hab with
  | single hp => exact h.lt_of_parent? _ _ hp
  | tail _ hp ih => exact Nat.lt_trans ih (h.lt_of_parent? _ _ hp)

theorem WellFormed.wellFounded_child (h : t.WellFormed P) :
    WellFounded fun c d => c ∈ t.childrenOf d :=
  Subrelation.wf (fun hc => h.lt_of_mem_childrenOf hc) Nat.lt_wfRel.wf

/-- A parent has fewer nodes after it than its child. -/
theorem WellFormed.wellFounded_parent (h : t.WellFormed P) :
    WellFounded fun d c => t.parent? c = some d := by
  refine Subrelation.wf (r := InvImage (· < ·) fun id => t.size - id) (fun {d c} hp => ?_)
    (InvImage.wf _ Nat.lt_wfRel.wf)
  have hlt := h.lt_of_parent? c d hp
  have hd := h.lt_size_of_isParent hp
  show t.size - d < t.size - c
  omega

/-! ## The way from the root -/

/-- The ids from one node down to another. -/
structure IsWay (t : Tree) (r id : Nat) (ids : List Nat) : Prop where
  head? : ids.head? = some r
  getLast? : ids.getLast? = some id
  isChain : ids.IsChain fun d c => t.parent? c = some d

theorem WellFormed.exists_way (h : t.WellFormed P) {id : Nat} (hid : id < t.size) :
    ∃ r ids nodes, t.rootOf id = .ok r ∧ t.parent? r = none ∧ t.IsWay r id ids ∧
      t.ancestry id = .ok nodes ∧ ids.map t.get? = nodes.map some := by
  obtain ⟨r, hr, -, hroot⟩ := h.exists_rootOf hid
  refine ⟨r, (t.climb id).reverse, _, hr, hroot, ⟨?_, ?_, ?_⟩, h.ancestry_eq hid, ?_⟩
  · rw [List.head?_reverse]
    exact getLast?_climb hr
  · rw [List.getLast?_reverse]
    exact h.head?_climb hid
  · rw [List.isChain_reverse]
    exact h.isChain_climb hid
  · have known : ∀ c ∈ (t.climb id).reverse, c < t.size := fun c hc =>
      h.known_of_mem_climb hid c (List.mem_reverse.mp hc)
    generalize (t.climb id).reverse = ids at known
    induction ids with
    | nil => rfl
    | cons c cs ih =>
        obtain ⟨n, hn⟩ := exists_get? (known c (.head _))
        rw [List.map_cons, List.filterMap_cons, hn, List.map_cons,
          ih fun d hd => known d (.tail _ hd)]

/-! ## Consistent trees -/

/-- What holds of a tree at all times. -/
structure Consistent (t : Tree) : Prop where
  /-- Children and parents agree. -/
  mem_childrenOf : ∀ c d, c ∈ t.childrenOf d ↔ t.parent? c = some d
  /-- No child is listed twice. -/
  nodup_childrenOf : ∀ d, (t.childrenOf d).Nodup
  /-- A child came before its parent. -/
  child_lt_parent : ∀ c d, t.parent? c = some d → c < d
  /-- No node is above itself. -/
  acyclic : ∀ id, ¬ Relation.TransGen (fun c d => t.parent? c = some d) id id
  /-- Following parents ends. -/
  wellFounded_parent : WellFounded fun d c => t.parent? c = some d
  /-- Following children ends. -/
  wellFounded_child : WellFounded fun c d => c ∈ t.childrenOf d
  /-- Climbing stops at nothing but a root. -/
  climb_eq : ∀ id, id < t.size → t.climb id = id :: ((t.parent? id).map t.climb).getD []
  /-- The branch of a node has the branches of all its children. -/
  branch_eq : ∀ id n, t.get? id = some n → ∃ branches, n.children.map t.branch? =
    branches.map some ∧ t.branch? id = some ⟨id, n.item, branches⟩
  /-- Every known node can be copied. -/
  copied : ∀ id, id < t.size → ∃ u, t.deepCopy id = .ok u
  /-- Unknown nodes are reported. -/
  unknown : ∀ id, t.size ≤ id → t.rootOf id = .error (.unknownNode id) ∧
    t.ancestry id = .error (.unknownNode id) ∧ t.deepCopy id = .error (.unknownNode id)
  /-- A page has no children. -/
  page_childless : ∀ id p, t.item? id = some (.page p) → t.childrenOf id = []
  /-- A document has one index, which is a page. -/
  one_index : ∀ d doc, t.item? d = some (.document doc) → ∃ i p, i ∈ t.childrenOf d ∧
    t.item? i = some (.page p) ∧ p.isIndex = true ∧ t.indexOf? d = some i ∧
    ∀ c item, c ∈ t.childrenOf d → t.item? c = some item → item.isIndex = true → c = i
  /-- Siblings have different names. -/
  names_differ : ∀ a b d i j, a ∈ t.childrenOf d → b ∈ t.childrenOf d → a ≠ b →
    t.item? a = some i → t.item? b = some j → i.name ≠ j.name
  /-- Siblings have different entries. -/
  entries_differ : ∀ a b d i j, a ∈ t.childrenOf d → b ∈ t.childrenOf d → a ≠ b →
    t.item? a = some i → t.item? b = some j → i.entry ≠ j.entry
  /-- The nodes above a node start at its root, follow the links and end at it. -/
  way : ∀ id, id < t.size → ∃ r ids nodes, t.rootOf id = .ok r ∧ t.parent? r = none ∧
    t.IsWay r id ids ∧ t.ancestry id = .ok nodes ∧ ids.map t.get? = nodes.map some
  /-- Every known node has a path, and a path on disk. -/
  paths : ∀ id, id < t.size → (∃ path, t.logicalPath id = .ok path) ∧
    ∃ path, t.physicalPath id = .ok path

theorem WellFormed.exists_branches (h : t.WellFormed P) {ids : List Nat}
    (known : ∀ c ∈ ids, c < t.size) : ids.map t.branch? = (ids.filterMap t.branch?).map some := by
  induction ids with
  | nil => rfl
  | cons c cs ih =>
      obtain ⟨b, hb, -⟩ := h.exists_branch? (known c (.head _))
      rw [List.map_cons, List.filterMap_cons, hb, List.map_cons,
        ih fun d hd => known d (.tail _ hd)]

theorem WellFormed.consistent (h : t.WellFormed P) : t.Consistent where
  mem_childrenOf := h.mem_childrenOf
  nodup_childrenOf := h.nodup_childrenOf
  child_lt_parent := h.lt_of_parent?
  acyclic _ hloop := Nat.lt_irrefl _ (h.lt_of_transGen hloop)
  wellFounded_parent := h.wellFounded_parent
  wellFounded_child := h.wellFounded_child
  climb_eq _ hid := h.climb_eq hid
  branch_eq id n hn := ⟨_, h.exists_branches fun _ hc =>
    h.known_of_mem_childrenOf ((childrenOf_of_get? hn).symm ▸ hc), h.branch?_eq_some hn⟩
  copied id hid := by
    obtain ⟨-, u, -, hu, -⟩ := h.deepCopy hid
    exact ⟨u, hu⟩
  unknown id hid := ⟨rootOf_of_unknown hid, ancestry_of_unknown hid, deepCopy_eq_error hid⟩
  page_childless id p hp := by
    refine List.eq_nil_iff_forall_not_mem.mpr fun c hc => ?_
    obtain ⟨doc, hd, -⟩ := h.fits_of_parent? ((h.mem_childrenOf c id).mp hc)
    cases hp.symm.trans hd
  one_index d doc hd := by
    obtain ⟨i, p, hindex, hp, hi, hidx, honly⟩ := h.exists_index hd
    exact ⟨i, p, (h.mem_childrenOf i d).mpr hp, hi, hidx, hindex, fun c item hc =>
      honly c item ((h.mem_childrenOf c d).mp hc)⟩
  names_differ a b d i j ha hb hne hi hj heq := hne <| h.eq_of_name
    ((h.mem_childrenOf a d).mp ha) ((h.mem_childrenOf b d).mp hb) hi hj heq
  entries_differ a b d i j ha hb hne hi hj heq := hne <| h.eq_of_entry
    ((h.mem_childrenOf a d).mp ha) ((h.mem_childrenOf b d).mp hb) hi hj heq
  way _ hid := h.exists_way hid
  paths id hid := by
    obtain ⟨c, -, -, -, -, hpath⟩ := h.physicalPath_eq hid
    exact ⟨⟨_, h.logicalPath_eq hid⟩, _, hpath⟩

/-- Whatever the changes, a tree is consistent. -/
theorem consistent_make (changes : List Change) : (make changes).Consistent :=
  (wellFormed_make (P := fun _ => True) fun c _ => by cases c <;> trivial).consistent

end Tree

end PageLoom
