import PageLoom.Tree.Basic
import Mathlib.Data.List.Nodup

/-!
# Well-formed trees

The ids of a tree point both ways: a document lists its children, and a child names
its parent.  `Tree.WellFormed` says that the two agree, that a child has a smaller
id than its parent, and that the children of every node fit it: a page has none,
and those of a document differ in name and in entry and have one index among them.

A tree changes only by adopting: a node is added at the end, and nodes that belong
to no document yet become its children.  `Tree.WellFormed.adopt` says when this
keeps a tree well-formed, and `Tree.WellFormed.addDocument` that a document which
is not refused is adopted so.

Everything is stated for a property `P` that all items of the tree have.
-/

namespace PageLoom

/-- What may stand below an item. -/
def Item.Fits (item : Item) (below : List Item) : Prop :=
  match item with
  | .page _ => below = []
  | .document _ =>
      (below.map Item.name).Nodup ∧ (below.map Item.entry).Nodup ∧ below.countP Item.isIndex = 1

namespace Tree

/-! ## The links of a tree -/

/-- What the node of an id is. -/
def item? (t : Tree) (id : Nat) : Option Item := (t.get? id).map TreeNode.item

/-- The document that a node belongs to. -/
def parent? (t : Tree) (id : Nat) : Option Nat := (t.get? id).bind TreeNode.parent

/-- The children of a node; an unknown id has none. -/
def childrenOf (t : Tree) (id : Nat) : List Nat := ((t.get? id).map TreeNode.children).getD []

/-- What the children of a node are. -/
def itemsBelow (t : Tree) (id : Nat) : List Item := (t.childrenOf id).filterMap t.item?

theorem get?_eq_none_iff {t : Tree} {id : Nat} : t.get? id = none ↔ t.size ≤ id :=
  List.getElem?_eq_none_iff

theorem exists_get? {t : Tree} {id : Nat} (h : id < t.size) : ∃ n, t.get? id = some n :=
  ⟨t.nodes[id], List.getElem?_eq_getElem h⟩

theorem lt_size_of_item? {t : Tree} {id : Nat} {item : Item} (h : t.item? id = some item) :
    id < t.size := by
  obtain ⟨n, hn, -⟩ := Option.map_eq_some_iff.mp h
  exact lt_size_of_get? hn

theorem lt_size_of_parent? {t : Tree} {c d : Nat} (h : t.parent? c = some d) : c < t.size := by
  obtain ⟨n, hn, -⟩ := Option.bind_eq_some_iff.mp h
  exact lt_size_of_get? hn

/-- Only a node of the tree has children. -/
theorem lt_size_of_mem_childrenOf {t : Tree} {c d : Nat} (h : c ∈ t.childrenOf d) : d < t.size := by
  cases hd : t.get? d with
  | none => simp [childrenOf, hd] at h
  | some n => exact lt_size_of_get? hd

theorem exists_item? {t : Tree} {id : Nat} (h : id < t.size) : ∃ item, t.item? id = some item := by
  obtain ⟨n, hn⟩ := exists_get? h
  exact ⟨n.item, by simp [item?, hn]⟩

theorem item?_of_get? {t : Tree} {id : Nat} {n : TreeNode} (h : t.get? id = some n) :
    t.item? id = some n.item := by simp [item?, h]

theorem parent?_of_get? {t : Tree} {id : Nat} {n : TreeNode} (h : t.get? id = some n) :
    t.parent? id = n.parent := by simp [parent?, h]

theorem childrenOf_of_get? {t : Tree} {id : Nat} {n : TreeNode} (h : t.get? id = some n) :
    t.childrenOf id = n.children := by simp [childrenOf, h]

/-! ## Adopting -/

/-- Adopting children adds a node at the end and changes nothing but the parents of those
children. -/
theorem get?_adopt (t : Tree) (item : Item) (children : List Nat) (id : Nat) :
    (t.adopt item children).get? id =
      if id = t.size then some { item, children }
      else (t.get? id).map fun n =>
        if id ∈ children then { n with parent := some t.size } else n := by
  have hsize : t.size = t.nodes.length := rfl
  rw [adopt, get?, get?, List.getElem?_append, List.length_mapIdx, List.getElem?_mapIdx]
  by_cases hlt : id < t.nodes.length
  · rw [if_pos hlt, if_neg (by omega)]
  · rw [if_neg hlt]
    by_cases he : id = t.size
    · simp [he, hsize]
    · rw [if_neg he, List.getElem?_eq_none (by simp; omega), List.getElem?_eq_none (by omega)]
      rfl

/-- No item changes when children are adopted. -/
theorem item?_adopt (t : Tree) (item : Item) (children : List Nat) (id : Nat) :
    (t.adopt item children).item? id = if id = t.size then some item else t.item? id := by
  rw [item?, get?_adopt]
  split
  · rfl
  · rw [item?, Option.map_map]
    congr 1
    funext n
    simp only [Function.comp_apply]
    split <;> rfl

/-- No other node gains or loses a child when children are adopted. -/
theorem childrenOf_adopt (t : Tree) (item : Item) (children : List Nat) (id : Nat) :
    (t.adopt item children).childrenOf id = if id = t.size then children else t.childrenOf id := by
  rw [childrenOf, get?_adopt]
  split
  · rfl
  · rw [childrenOf, Option.map_map]
    congr 2
    funext n
    simp only [Function.comp_apply]
    split <;> rfl

/-- The children get the new node as their parent, the others keep theirs. -/
theorem parent?_adopt {t : Tree} (item : Item) {children : List Nat}
    (known : ∀ c ∈ children, c < t.size) (id : Nat) :
    (t.adopt item children).parent? id =
      if id ∈ children then some t.size else t.parent? id := by
  rw [parent?, get?_adopt]
  by_cases he : id = t.size
  · subst he
    have hn : t.get? t.size = none := get?_eq_none_iff.mpr (Nat.le_refl _)
    rw [if_pos rfl, if_neg fun hm => Nat.lt_irrefl _ (known _ hm), parent?, hn]
    rfl
  · rw [if_neg he, parent?]
    cases hg : t.get? id with
    | none =>
        rw [if_neg fun hm => absurd (known _ hm) (Nat.not_lt.mpr (get?_eq_none_iff.mp hg))]
        rfl
    | some n => by_cases hm : id ∈ children <;> simp [hm]

/-- What adopting leaves as it was. -/
theorem get?_adopt_of_not_mem {t : Tree} {item : Item} {children : List Nat} {id : Nat}
    (h : id < t.size) (hm : id ∉ children) : (t.adopt item children).get? id = t.get? id := by
  rw [get?_adopt, if_neg (by omega)]
  simp [hm]

/-! ## Well-formed trees -/

/-- The links of a tree agree, and all items fit together and have the property `P`. -/
structure WellFormed (P : Item → Prop) (t : Tree) : Prop where
  mem_childrenOf : ∀ c d, c ∈ t.childrenOf d ↔ t.parent? c = some d
  nodup_childrenOf : ∀ d, (t.childrenOf d).Nodup
  lt_of_parent? : ∀ c d, t.parent? c = some d → c < d
  fits : ∀ d item, t.item? d = some item → item.Fits (t.itemsBelow d)
  items : ∀ id item, t.item? id = some item → P item

namespace WellFormed

variable {P : Item → Prop} {t : Tree}

theorem empty : Tree.empty.WellFormed P where
  mem_childrenOf c d := by simp [childrenOf, parent?, get?, Tree.empty]
  nodup_childrenOf d := by simp [childrenOf, get?, Tree.empty]
  lt_of_parent? c d h := by simp [parent?, get?, Tree.empty] at h
  fits d item h := by simp [item?, get?, Tree.empty] at h
  items d item h := by simp [item?, get?, Tree.empty] at h

/-- A child is older than its parent, which is what recursion over a tree rests on. -/
theorem lt_of_mem_childrenOf (h : t.WellFormed P) {c d : Nat} (hc : c ∈ t.childrenOf d) :
    c < d := h.lt_of_parent? c d ((h.mem_childrenOf c d).mp hc)

theorem known_of_mem_childrenOf (h : t.WellFormed P) {c d : Nat} (hc : c ∈ t.childrenOf d) :
    c < t.size := lt_size_of_parent? ((h.mem_childrenOf c d).mp hc)

theorem lt_size_of_isParent (h : t.WellFormed P) {c d : Nat} (hc : t.parent? c = some d) :
    d < t.size := lt_size_of_mem_childrenOf ((h.mem_childrenOf c d).mpr hc)

/-- Adopting different nodes without a parent keeps a tree well-formed if the new
item fits on top of them. -/
theorem adopt (h : t.WellFormed P) {item : Item} {children : List Nat}
    (free : ∀ c ∈ children, c < t.size ∧ t.parent? c = none) (nodup : children.Nodup)
    (fits : item.Fits (children.filterMap t.item?)) (hP : P item) :
    (t.adopt item children).WellFormed P := by
  have known : ∀ c ∈ children, c < t.size := fun c hc => (free c hc).1
  have none_below : t.childrenOf t.size = [] := by
    simp [childrenOf, get?_eq_none_iff.mpr (Nat.le_refl t.size)]
  have items_eq : ∀ ids : List Nat, (∀ c ∈ ids, c < t.size) →
      ids.filterMap (t.adopt item children).item? = ids.filterMap t.item? := fun ids hids =>
    List.filterMap_congr fun c hc => by
      rw [item?_adopt, if_neg (Nat.ne_of_lt (hids c hc))]
  constructor
  case mem_childrenOf =>
    intro c d
    rw [childrenOf_adopt, parent?_adopt item known]
    by_cases hd : d = t.size
    · subst hd
      rw [if_pos rfl]
      by_cases hc : c ∈ children
      · simp [hc]
      · rw [if_neg hc, ← h.mem_childrenOf, none_below]
        simp [hc]
    · rw [if_neg hd, h.mem_childrenOf]
      by_cases hc : c ∈ children
      · simp [hc, (free c hc).2, Ne.symm hd]
      · simp [hc]
  case nodup_childrenOf =>
    intro d
    rw [childrenOf_adopt]
    split
    · exact nodup
    · exact h.nodup_childrenOf d
  case lt_of_parent? =>
    intro c d hc
    rw [parent?_adopt item known] at hc
    split at hc
    next hm =>
      cases hc
      exact known c hm
    next => exact h.lt_of_parent? c d hc
  case fits =>
    intro d i hi
    rw [item?_adopt] at hi
    rw [itemsBelow, childrenOf_adopt]
    by_cases hd : d = t.size
    · rw [if_pos hd] at hi ⊢
      cases hi
      rwa [items_eq children known]
    · rw [if_neg hd] at hi ⊢
      rw [items_eq _ fun c hc => h.known_of_mem_childrenOf hc]
      exact h.fits d i hi
  case items =>
    intro id i hi
    rw [item?_adopt] at hi
    split at hi
    · cases hi
      exact hP
    · exact h.items id i hi

/-! ## Adding pages and documents -/

theorem addPage (h : t.WellFormed P) {p : Page} (hP : P (.page p)) :
    (t.addPage p).WellFormed P :=
  h.adopt (by simp) .nil rfl hP

end WellFormed

/-- Children that are not refused are known, belong to no document, and differ in id,
name and entry from each other and from those before them. -/
theorem of_refusal?_eq_none {t : Tree} {document : String} {children : List Nat} :
    ∀ {before : List (Nat × TreeNode)}, t.refusal? document before children = none →
      (before.map fun b => b.1).Nodup → (before.map fun b => b.2.name).Nodup →
      (before.map fun b => b.2.entry).Nodup →
      (∀ c ∈ children, c < t.size ∧ t.parent? c = none) ∧
      (children ++ before.map fun b => b.1).Nodup ∧
      ((children.filterMap t.item?).map Item.name ++ before.map fun b => b.2.name).Nodup ∧
      ((children.filterMap t.item?).map Item.entry ++ before.map fun b => b.2.entry).Nodup := by
  induction children with
  | nil =>
      intro before _ hids hnames hentries
      exact ⟨by simp, by simpa using hids, by simpa using hnames, by simpa using hentries⟩
  | cons c cs ih =>
      intro before h hids hnames hentries
      rw [refusal?] at h
      cases hc : t.get? c with
      | none => simp [hc] at h
      | some n =>
          simp only [hc] at h
          split at h
          next => cases h
          next hfree =>
            split at h
            next => cases h
            next hname =>
              split at h
              next => cases h
              next hentry =>
                simp only [not_or, Option.not_isSome_iff_eq_none] at hfree
                have hid : c ∉ before.map fun b => b.1 := by simpa using hfree.2
                have hname : n.name ∉ before.map fun b => b.2.name := by simpa using hname
                have hentry : n.entry ∉ before.map fun b => b.2.entry := by simpa using hentry
                obtain ⟨hf, h1, h2, h3⟩ := ih h (List.nodup_cons.mpr ⟨hid, hids⟩)
                  (List.nodup_cons.mpr ⟨hname, hnames⟩) (List.nodup_cons.mpr ⟨hentry, hentries⟩)
                have hitem := item?_of_get? hc
                refine ⟨?_, List.nodup_middle.mp h1, ?_, ?_⟩
                · intro d hd
                  cases List.mem_cons.mp hd with
                  | inl he =>
                      subst he
                      exact ⟨lt_size_of_get? hc, (parent?_of_get? hc).trans hfree.1⟩
                  | inr hd => exact hf d hd
                · simpa [List.filterMap_cons, hitem] using List.nodup_middle.mp h2
                · simpa [List.filterMap_cons, hitem] using List.nodup_middle.mp h3

/-- Index pages are counted over the items of the nodes that exist. -/
theorem countIndexes_eq (t : Tree) (ids : List Nat) :
    t.countIndexes ids = (ids.filterMap t.item?).countP Item.isIndex := by
  induction ids with
  | nil => rfl
  | cons c cs ih =>
      rw [countIndexes] at ih ⊢
      cases hc : t.get? c with
      | none => simp [hc, item?, ih]
      | some n => simp [List.countP_cons, hc, item?, ih]

/-- A document that is added is not refused, and is adopted. -/
theorem of_addDocument_eq_ok {t u : Tree} {d : Document} {children : List Nat}
    (h : t.addDocument d children = .ok u) :
    t.refusal? d.name [] children = none ∧ t.countIndexes children = 1 ∧
      u = t.adopt (.document d) children := by
  rw [addDocument] at h
  split at h
  next => cases h
  next hr =>
    split at h
    next hi =>
      cases h
      exact ⟨hr, hi, rfl⟩
    next => cases h

/-- A document that is added leaves the tree well formed: its children had no parent before. -/
theorem WellFormed.addDocument {P : Item → Prop} {t u : Tree} (h : t.WellFormed P) {d : Document}
    {children : List Nat} (hu : t.addDocument d children = .ok u) (hP : P (.document d)) :
    u.WellFormed P := by
  obtain ⟨hr, hi, rfl⟩ := of_addDocument_eq_ok hu
  obtain ⟨free, h1, h2, h3⟩ := of_refusal?_eq_none hr .nil .nil .nil
  simp only [List.map_nil, List.append_nil] at h1 h2 h3
  exact h.adopt free h1 ⟨h2, h3, by rw [← countIndexes_eq]; exact hi⟩ hP

end Tree

end PageLoom
