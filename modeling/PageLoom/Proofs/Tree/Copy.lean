import PageLoom.Proofs.Tree.WellFormed
import PageLoom.Tree.Branch

/-!
# Copies in a well-formed tree

A branch is sound if every item in it fits what stands below it.  Adding a sound
branch anew keeps a tree well-formed, leaves all nodes as they were, and ends with a
node that belongs to no document (`graft_grown`).

`branch?_eq_some` says that the branch of a node is made of the branches of its
children, none left out, and `sound_of_branch?` that it is sound.  So a copy of a
known node never fails, and keeps the tree well-formed (`WellFormed.deepCopy`).
-/

namespace PageLoom

namespace Branch

/-! ## Sound branches -/

mutual
/-- All items of a branch fit together and have the property `P`. -/
def Sound (P : Item → Prop) : Branch → Prop
  | ⟨_, item, children⟩ => P item ∧ item.Fits (children.map Branch.item) ∧ AllSound P children

/-- All branches of a list are sound. -/
def AllSound (P : Item → Prop) : List Branch → Prop
  | [] => True
  | b :: bs => b.Sound P ∧ AllSound P bs
end

theorem allSound_of_forall {P : Item → Prop} {bs : List Branch} (h : ∀ b ∈ bs, b.Sound P) :
    AllSound P bs := by
  induction bs with
  | nil => trivial
  | cons b bs ih => exact ⟨h b (.head _), ih fun c hc => h c (.tail _ hc)⟩

end Branch

namespace Tree

variable {P : Item → Prop}

/-! ## Trees that grow -/

/-- All nodes of a tree are still there, as they were. -/
def Extends (t u : Tree) : Prop := t.size ≤ u.size ∧ ∀ id, id < t.size → u.get? id = t.get? id

theorem Extends.refl (t : Tree) : t.Extends t := ⟨Nat.le_refl _, fun _ _ => rfl⟩

theorem Extends.trans {t u v : Tree} (htu : t.Extends u) (huv : u.Extends v) : t.Extends v :=
  ⟨Nat.le_trans htu.1 huv.1, fun id hid =>
    (huv.2 id (Nat.lt_of_lt_of_le hid htu.1)).trans (htu.2 id hid)⟩

theorem Extends.item? {t u : Tree} (h : t.Extends u) {id : Nat} (hid : id < t.size) :
    u.item? id = t.item? id := by rw [Tree.item?, h.2 id hid, Tree.item?]

theorem Extends.parent? {t u : Tree} (h : t.Extends u) {id : Nat} (hid : id < t.size) :
    u.parent? id = t.parent? id := by rw [Tree.parent?, h.2 id hid, Tree.parent?]

/-- Adopting only nodes that came after `t` leaves `t` as it was. -/
theorem Extends.adopt {t u : Tree} (h : t.Extends u) (item : Item) {children : List Nat}
    (late : ∀ c ∈ children, t.size ≤ c) : t.Extends (u.adopt item children) := by
  refine ⟨by rw [size_adopt]; exact Nat.le_succ_of_le h.1, fun id hid => ?_⟩
  rw [get?_adopt_of_not_mem (Nat.lt_of_lt_of_le hid h.1)
    fun hm => absurd (late id hm) (Nat.not_le.mpr hid)]
  exact h.2 id hid

/-- All nodes of a tree are still there, with the same items and the same children. -/
def Keeps (t u : Tree) : Prop :=
  ∀ k, k < t.size → u.item? k = t.item? k ∧ u.childrenOf k = t.childrenOf k

theorem Extends.keeps {t u : Tree} (h : t.Extends u) : t.Keeps u := fun k hk => by
  rw [Tree.item?, Tree.childrenOf, h.2 k hk]
  exact ⟨rfl, rfl⟩

theorem Keeps.trans {t u v : Tree} (htu : t.Keeps u) (huv : u.Keeps v) : t.Keeps v := fun k hk => by
  obtain ⟨item, hi⟩ := exists_item? hk
  obtain ⟨hitem, hchildren⟩ := htu k hk
  have hku : k < u.size := lt_size_of_item? (hitem.trans hi)
  exact ⟨(huv k hku).1.trans hitem, (huv k hku).2.trans hchildren⟩

theorem keeps_adopt (t : Tree) (item : Item) (children : List Nat) :
    t.Keeps (t.adopt item children) := fun k hk => by
  rw [item?_adopt, childrenOf_adopt, if_neg (Nat.ne_of_lt hk), if_neg (Nat.ne_of_lt hk)]
  exact ⟨rfl, rfl⟩

/-! ## Adding branches -/

/-- What adding a branch with the topmost item `item` makes of a tree: the last node is
new, belongs to no document, and is that item. -/
structure Grown (P : Item → Prop) (t : Tree) (item : Item) (u : Tree) : Prop where
  wellFormed : u.WellFormed P
  kept : t.Extends u
  lt_size : t.size < u.size
  item?_last : u.item? (u.size - 1) = some item
  parent?_last : u.parent? (u.size - 1) = none

/-- What adding branches with the topmost items `items` makes of a tree: the ids are
new, in order, belong to no document, and are those items. -/
structure AllGrown (P : Item → Prop) (t : Tree) (items : List Item) (u : Tree)
    (ids : List Nat) : Prop where
  wellFormed : u.WellFormed P
  kept : t.Extends u
  late : ∀ c ∈ ids, t.size ≤ c
  free : ∀ c ∈ ids, c < u.size ∧ u.parent? c = none
  sorted : ids.Pairwise (· < ·)
  items_eq : ids.filterMap u.item? = items

theorem AllGrown.nil {t : Tree} (h : t.WellFormed P) : t.AllGrown P [] t [] where
  wellFormed := h
  kept := .refl t
  late := by simp
  free := by simp
  sorted := .nil
  items_eq := rfl

/-- A branch and then the others. -/
theorem Grown.cons {t u v : Tree} {item : Item} {items : List Item} {ids : List Nat}
    (h : t.Grown P item u) (hs : u.AllGrown P items v ids) :
    t.AllGrown P (item :: items) v ((u.size - 1) :: ids) := by
  have hpos := h.lt_size
  have hlast : u.size - 1 < u.size := by omega
  constructor
  case wellFormed => exact hs.wellFormed
  case kept => exact h.kept.trans hs.kept
  case late =>
    intro c hc
    rcases List.mem_cons.mp hc with rfl | hc
    · omega
    · have := hs.late c hc
      omega
  case free =>
    intro c hc
    rcases List.mem_cons.mp hc with rfl | hc
    · exact ⟨Nat.lt_of_lt_of_le hlast hs.kept.1,
        (hs.kept.parent? hlast).trans h.parent?_last⟩
    · exact hs.free c hc
  case sorted =>
    refine .cons (fun c hc => ?_) hs.sorted
    have := hs.late c hc
    omega
  case items_eq =>
    rw [List.filterMap_cons, hs.kept.item? hlast, h.item?_last, hs.items_eq]

/-- The document above branches that have been added. -/
theorem AllGrown.adopt {t u : Tree} {item : Item} {items : List Item} {ids : List Nat}
    (h : t.AllGrown P items u ids) (hfits : item.Fits items) (hP : P item) :
    t.Grown P item (u.adopt item ids) := by
  have hlast : (u.adopt item ids).size - 1 = u.size := by rw [size_adopt]; rfl
  have nodup : ids.Nodup := h.sorted.imp fun hlt => Nat.ne_of_lt hlt
  have known : ∀ c ∈ ids, c < u.size := fun c hc => (h.free c hc).1
  constructor
  case wellFormed =>
    exact h.wellFormed.adopt h.free nodup (by rw [h.items_eq]; exact hfits) hP
  case kept => exact h.kept.adopt item h.late
  case lt_size =>
    rw [size_adopt]
    exact Nat.lt_succ_of_le h.kept.1
  case item?_last => rw [hlast, item?_adopt, if_pos rfl]
  case parent?_last =>
    rw [hlast, parent?_adopt item known, if_neg fun hm => Nat.lt_irrefl _ (known _ hm)]
    simp [parent?, get?_eq_none_iff.mpr (Nat.le_refl u.size)]

mutual
/-- Adding a sound branch keeps a tree well-formed. -/
theorem graft_grown : ∀ (b : Branch) {t : Tree}, t.WellFormed P → b.Sound P →
    t.Grown P b.item (t.graft b)
  | ⟨_, item, children⟩, t, h, hb => by
      obtain ⟨hP, hfits, hall⟩ := hb
      rw [graft]
      exact (graftAll_grown children h hall).adopt hfits hP

/-- Adding sound branches keeps a tree well-formed. -/
theorem graftAll_grown : ∀ (bs : List Branch) {t : Tree}, t.WellFormed P → Branch.AllSound P bs →
    t.AllGrown P (bs.map Branch.item) (t.graftAll bs).1 (t.graftAll bs).2
  | [], t, h, _ => by
      rw [graftAll]
      exact .nil h
  | b :: bs, t, h, hb => by
      have hg := graft_grown b h hb.1
      rw [graftAll, List.map_cons]
      exact hg.cons (graftAll_grown bs hg.wellFormed hb.2)
end

/-! ## The branch of a node -/

/-- The branch of a node is made of the branches of its children. -/
theorem WellFormed.branch?_eq_some {t : Tree} (h : t.WellFormed P) {id : Nat} {n : TreeNode}
    (hn : t.get? id = some n) :
    t.branch? id = some ⟨id, n.item, n.children.filterMap t.branch?⟩ := by
  rw [branch?, hn]
  simp only [Option.some.injEq, Branch.mk.injEq, true_and]
  refine List.filterMap_congr fun c hc => ?_
  rw [← childrenOf_of_get? hn] at hc
  rw [if_pos (h.lt_of_mem_childrenOf hc)]

/-- Every known node has a branch, with its item on top. -/
theorem WellFormed.exists_branch? {t : Tree} (h : t.WellFormed P) {id : Nat}
    (hid : id < t.size) : ∃ b, t.branch? id = some b ∧ b.id = id ∧ t.item? id = some b.item := by
  obtain ⟨n, hn⟩ := exists_get? hid
  exact ⟨_, h.branch?_eq_some hn, rfl, item?_of_get? hn⟩

theorem WellFormed.items_branches {t : Tree} (h : t.WellFormed P) {ids : List Nat}
    (known : ∀ c ∈ ids, c < t.size) :
    (ids.filterMap t.branch?).map Branch.item = ids.filterMap t.item? := by
  induction ids with
  | nil => rfl
  | cons c cs ih =>
      obtain ⟨b, hb, -, hi⟩ := h.exists_branch? (known c (.head _))
      rw [List.filterMap_cons, List.filterMap_cons, hb, hi]
      exact congrArg (b.item :: ·) (ih fun d hd => known d (.tail _ hd))

/-- The branch of a node is sound.  The induction is on the id: children have smaller
ones. -/
theorem WellFormed.sound_of_branch? {t : Tree} (h : t.WellFormed P) :
    ∀ (id : Nat) (b : Branch), t.branch? id = some b → b.Sound P := by
  intro id
  induction id using Nat.strongRecOn with
  | ind id ih =>
      intro b hb
      cases hn : t.get? id with
      | none =>
          rw [branch?, hn] at hb
          cases hb
      | some n =>
          rw [h.branch?_eq_some hn] at hb
          cases hb
          have hc := childrenOf_of_get? hn
          have hitem := item?_of_get? hn
          refine ⟨h.items id n.item hitem, ?_, Branch.allSound_of_forall fun b hb => ?_⟩
          · rw [h.items_branches fun c hm => h.known_of_mem_childrenOf (hc ▸ hm), ← hc]
            exact h.fits id n.item hitem
          · obtain ⟨c, hm, hcb⟩ := List.mem_filterMap.mp hb
            exact ih c (h.lt_of_mem_childrenOf (hc ▸ hm)) b hcb

/-! ## Copies -/

theorem deepCopy_eq_error {t : Tree} {id : Nat} (h : t.size ≤ id) :
    t.deepCopy id = .error (.unknownNode id) := by
  rw [deepCopy, branch?, get?_eq_none_iff.mpr h]

theorem WellFormed.deepCopy {t : Tree} (h : t.WellFormed P) {id : Nat} (hid : id < t.size) :
    ∃ item u, t.item? id = some item ∧ t.deepCopy id = .ok u ∧ t.Grown P item u := by
  obtain ⟨b, hb, -, hi⟩ := h.exists_branch? hid
  refine ⟨b.item, t.graft b, hi, ?_, graft_grown b h (h.sound_of_branch? id b hb)⟩
  rw [Tree.deepCopy, hb]

end Tree

end PageLoom
