import PageLoom.Proofs.Tree.Embedding
import PageLoom.Proofs.Tree.History

/-!
# Copying what is below a node

Copying a node adds the nodes below it one after the other, every child before its document.
`Tree.CopiesAll` says which nodes have been added, in which order, so that the copy of a node is
where the node is in that order (`placed`).  Copies of different branches do not mix
(`CopiesAll.cons`), and a document is copied on top of the copies of its children
(`CopiesAll.adopt`).  By induction on the ids, the copy of a node is made of the copies of all
nodes below it, and its own copy comes last (`WellFormed.copies_graft`).

`Tree.CopiesFreely` says what this comes to: the copy has as many nodes as what is copied, all of
them new, and is like it in every respect but the parent of the topmost node.  Whatever becomes
of the tree, relative paths between two copies are those between the nodes they were made of.
It holds after all changes (`copiesFreely_make`).
-/

namespace PageLoom

namespace Tree

variable {P : Item → Prop} {t s u v : Tree}

/-- A node and all nodes below it. -/
def nodesBelow (t : Tree) (id : Nat) : List Nat :=
  (List.range t.size).filter fun c => (t.climb c).contains id

theorem mem_nodesBelow {id c : Nat} : c ∈ t.nodesBelow id ↔ id ∈ t.climb c := by
  rw [nodesBelow, List.mem_filter, List.mem_range, List.contains_iff_mem]
  exact ⟨fun h => h.2, fun h => ⟨lt_size_of_mem_climb h, h⟩⟩

theorem nodup_nodesBelow (t : Tree) (id : Nat) : (t.nodesBelow id).Nodup :=
  List.nodup_range.filter _

/-! ## Nodes copied in order -/

/-- Where the copy of a node is if copies of the nodes `order` are added to a tree. -/
def placed (s : Tree) (order : List Nat) (c : Nat) : Nat := s.size + order.idxOf c

theorem placed_append_of_mem {front : List Nat} {c : Nat} (hc : c ∈ front) (rest : List Nat) :
    s.placed (front ++ rest) c = s.placed front c := by
  rw [placed, placed, List.idxOf_append_of_mem hc]

/-- Copies that come later are placed as in the tree that they are added to. -/
theorem placed_append_of_not_mem {front : List Nat} {c : Nat} (hc : c ∉ front) (rest : List Nat)
    (hsize : u.size = s.size + front.length) :
    s.placed (front ++ rest) c = u.placed rest c := by
  rw [placed, placed, List.idxOf_append_of_notMem hc, hsize, Nat.add_assoc]

theorem placed_lt {order : List Nat} {c : Nat} (hc : c ∈ order) :
    s.placed order c < s.size + order.length :=
  Nat.add_lt_add_left (List.idxOf_lt_length_iff.mpr hc) _

/-- The nodes `order`, which are all nodes below `tops`, have been added to `s` anew: as the same
items, each on top of the copies of its children. -/
structure CopiesAll (t s : Tree) (tops order : List Nat) (u : Tree) : Prop where
  kept : s.Extends u
  size_eq : u.size = s.size + order.length
  nodup : order.Nodup
  mem_order : ∀ c, c ∈ order ↔ ∃ k ∈ tops, k ∈ t.climb c
  item?_eq : ∀ c ∈ order, u.item? (s.placed order c) = t.item? c
  childrenOf_eq : ∀ c ∈ order,
    u.childrenOf (s.placed order c) = (t.childrenOf c).map (s.placed order)

namespace CopiesAll

variable {tops order : List Nat}

theorem nil (t s : Tree) : t.CopiesAll s [] [] s where
  kept := .refl s
  size_eq := rfl
  nodup := .nil
  mem_order c := by simp
  item?_eq c hc := by cases hc
  childrenOf_eq c hc := by cases hc

theorem placed_lt_size (hc : t.CopiesAll s tops order u) {c : Nat} (hm : c ∈ order) :
    s.placed order c < u.size := by
  rw [hc.size_eq]
  exact placed_lt hm

/-- The children of a copied node are copied, too. -/
theorem mem_of_child (h : t.WellFormed P) (hc : t.CopiesAll s tops order u) {c d : Nat}
    (hm : d ∈ order) (hd : c ∈ t.childrenOf d) : c ∈ order := by
  obtain ⟨k, hk, hbelow⟩ := (hc.mem_order d).mp hm
  exact (hc.mem_order c).mpr ⟨k, hk, h.mem_climb_of_child ((h.mem_childrenOf c d).mp hd) hbelow⟩

/-- One branch after the others. -/
theorem cons (h : t.WellFormed P) {k : Nat} {ks front rest : List Nat}
    (hk : t.CopiesAll s [k] front u) (hks : t.CopiesAll u ks rest v)
    (apart : ∀ c ∈ front, c ∉ rest) : t.CopiesAll s (k :: ks) (front ++ rest) v := by
  have hrest : ∀ c ∈ rest, s.placed (front ++ rest) c = u.placed rest c := fun c hc =>
    placed_append_of_not_mem (fun hm => apart c hm hc) rest hk.size_eq
  constructor
  case kept => exact hk.kept.trans hks.kept
  case size_eq => rw [hks.size_eq, hk.size_eq, List.length_append, Nat.add_assoc]
  case nodup =>
    refine List.nodup_append.mpr ⟨hk.nodup, hks.nodup, fun a ha b hb heq => ?_⟩
    exact apart a ha (heq ▸ hb)
  case mem_order =>
    intro c
    rw [List.mem_append, hk.mem_order, hks.mem_order]
    simp
  case item?_eq =>
    intro c hc
    rcases List.mem_append.mp hc with hc | hc
    · rw [placed_append_of_mem hc, hks.kept.item? (hk.placed_lt_size hc), hk.item?_eq c hc]
    · rw [hrest c hc, hks.item?_eq c hc]
  case childrenOf_eq =>
    intro c hc
    rcases List.mem_append.mp hc with hc | hc
    · rw [placed_append_of_mem hc, (hks.kept.keeps _ (hk.placed_lt_size hc)).2,
        hk.childrenOf_eq c hc]
      exact List.map_congr_left fun b hb =>
        (placed_append_of_mem (hk.mem_of_child h hc hb) rest).symm
    · rw [hrest c hc, hks.childrenOf_eq c hc]
      exact List.map_congr_left fun b hb => (hrest b (hks.mem_of_child h hc hb)).symm

/-- A document on top of the copies of its children. -/
theorem adopt (h : t.WellFormed P) {d : Nat} {item : Item} (hi : t.item? d = some item)
    (hc : t.CopiesAll s (t.childrenOf d) order u) :
    t.CopiesAll s [d] (order ++ [d]) (u.adopt item ((t.childrenOf d).map (s.placed order))) := by
  have hnew : d ∉ order := fun hm => by
    obtain ⟨k, hk, hbelow⟩ := (hc.mem_order d).mp hm
    exact absurd (h.lt_of_mem_childrenOf hk) (Nat.not_lt.mpr (h.le_of_mem_climb hbelow))
  have hlast : s.placed (order ++ [d]) d = u.size := by
    rw [placed_append_of_not_mem hnew [d] hc.size_eq, placed, List.idxOf_cons_self, Nat.add_zero]
  have hold : ∀ c ∈ order, s.placed (order ++ [d]) c = s.placed order c := fun c hm =>
    placed_append_of_mem hm [d]
  have hchild : ∀ c ∈ t.childrenOf d, c ∈ order := fun c hm =>
    (hc.mem_order c).mpr ⟨c, hm, h.mem_climb_self (h.known_of_mem_childrenOf hm)⟩
  constructor
  case kept =>
    refine hc.kept.adopt item fun c hm => ?_
    obtain ⟨k, -, rfl⟩ := List.mem_map.mp hm
    exact Nat.le_add_right _ _
  case size_eq =>
    rw [size_adopt, hc.size_eq, List.length_append, List.length_singleton, Nat.add_assoc]
  case nodup =>
    refine List.nodup_append.mpr ⟨hc.nodup, List.nodup_singleton d, fun a ha b hb heq => ?_⟩
    exact hnew (List.mem_singleton.mp hb ▸ heq ▸ ha)
  case mem_order =>
    intro c
    rw [List.mem_append, List.mem_singleton, hc.mem_order]
    constructor
    · rintro (⟨k, hk, hbelow⟩ | rfl)
      · exact ⟨d, .head _, h.mem_climb_of_parent? ((h.mem_childrenOf k d).mp hk) hbelow⟩
      · exact ⟨c, .head _, h.mem_climb_self (lt_size_of_item? hi)⟩
    · rintro ⟨k, hk, hbelow⟩
      rw [List.mem_singleton.mp hk] at hbelow
      by_cases he : c = d
      · exact .inr he
      · obtain ⟨b, hp, hbelow⟩ := h.exists_parent?_of_mem_climb hbelow he
        exact .inl ⟨b, (h.mem_childrenOf b d).mpr hp, hbelow⟩
  case item?_eq =>
    intro c hm
    rcases List.mem_append.mp hm with hm | hm
    · rw [hold c hm, (keeps_adopt u item _ _ (hc.placed_lt_size hm)).1, hc.item?_eq c hm]
    · cases List.mem_singleton.mp hm
      rw [hlast, item?_adopt, if_pos rfl, hi]
  case childrenOf_eq =>
    intro c hm
    rcases List.mem_append.mp hm with hm | hm
    · rw [hold c hm, (keeps_adopt u item _ _ (hc.placed_lt_size hm)).2, hc.childrenOf_eq c hm]
      exact List.map_congr_left fun b hb => (hold b (hc.mem_of_child h hm hb)).symm
    · cases List.mem_singleton.mp hm
      rw [hlast, childrenOf_adopt, if_pos rfl]
      exact List.map_congr_left fun b hb => (hold b (hchild b hb)).symm

end CopiesAll

/-! ## Branches that are added anew -/

theorem graftAll_cons (s : Tree) (b : Branch) (bs : List Branch) :
    s.graftAll (b :: bs) = (((s.graft b).graftAll bs).1,
      ((s.graft b).size - 1) :: ((s.graft b).graftAll bs).2) := by rw [graftAll]

/-- A node can be copied to the end of every tree, and its own copy comes last. -/
def Copyable (t : Tree) (id : Nat) : Prop := ∀ s : Tree, ∃ b order,
  t.branch? id = some b ∧ t.CopiesAll s [id] (order ++ [id]) (s.graft b)

/-- The branches of a document's children are copied one after the other. -/
theorem WellFormed.copies_graftAll (h : t.WellFormed P) {d : Nat} {ks : List Nat}
    (children : ∀ k ∈ ks, t.parent? k = some d) (nodup : ks.Nodup)
    (copyable : ∀ k ∈ ks, t.Copyable k) (s : Tree) :
    ∃ order, t.CopiesAll s ks order (s.graftAll (ks.filterMap t.branch?)).1 ∧
      (s.graftAll (ks.filterMap t.branch?)).2 = ks.map (s.placed order) := by
  induction ks generalizing s with
  | nil =>
      rw [List.filterMap_nil, graftAll]
      exact ⟨[], .nil t s, rfl⟩
  | cons k ks ih =>
      rw [List.nodup_cons] at nodup
      obtain ⟨b, front, hb, hcopy⟩ := copyable k (.head _) s
      obtain ⟨rest, hrest, hids⟩ := ih (fun c hc => children c (.tail _ hc)) nodup.2
        (fun c hc => copyable c (.tail _ hc)) (s.graft b)
      have hk : k ∈ front ++ [k] := by simp
      -- A node is below one child of the document only.
      have apart : ∀ c ∈ front ++ [k], c ∉ rest := by
        intro c hc hm
        obtain ⟨k', hk', hbelow⟩ := (hcopy.mem_order c).mp hc
        cases List.mem_singleton.mp hk'
        obtain ⟨j, hj, hbelow'⟩ := (hrest.mem_order c).mp hm
        cases h.eq_of_mem_climb (children k (.head _)) (children j (.tail _ hj)) hbelow hbelow'
        exact nodup.1 hj
      have hfront : k ∉ front := fun hm =>
        (List.nodup_append.mp hcopy.nodup).2.2 k hm k (.head _) rfl
      rw [List.filterMap_cons, hb, graftAll_cons]
      refine ⟨front ++ [k] ++ rest, .cons h hcopy hrest apart, ?_⟩
      have hlast : (s.graft b).size - 1 = s.placed (front ++ [k] ++ rest) k := by
        rw [placed_append_of_mem hk, placed, List.idxOf_append_of_notMem hfront,
          List.idxOf_cons_self, hcopy.size_eq, List.length_append, List.length_singleton]
        rfl
      rw [List.map_cons, ← hlast, hids]
      refine congrArg _ (List.map_congr_left fun c hc => ?_)
      have hm : c ∈ rest := (hrest.mem_order c).mpr
        ⟨c, hc, h.mem_climb_self (lt_size_of_parent? (children c (.tail _ hc)))⟩
      exact (placed_append_of_not_mem (fun hc => apart c hc hm) rest hcopy.size_eq).symm

/-- Every known node can be copied.  The induction is on the id: children have smaller ones. -/
theorem WellFormed.copies_graft (h : t.WellFormed P) {id : Nat} (hid : id < t.size) :
    t.Copyable id := by
  induction id using Nat.strongRecOn with
  | ind id ih =>
      intro s
      obtain ⟨n, hn⟩ := exists_get? hid
      have hchildren := childrenOf_of_get? hn
      have children : ∀ k ∈ n.children, t.parent? k = some id := fun k hk =>
        (h.mem_childrenOf k id).mp (hchildren ▸ hk)
      obtain ⟨order, hcopies, hids⟩ := h.copies_graftAll children
        (hchildren ▸ h.nodup_childrenOf id) (fun k hk =>
          ih k (h.lt_of_parent? k id (children k hk)) (lt_size_of_parent? (children k hk))) s
      refine ⟨_, order, h.branch?_eq_some hn, ?_⟩
      rw [graft]
      rw [← hchildren] at hcopies hids ⊢
      have hadopt := hcopies.adopt h (item?_of_get? hn)
      rwa [← hids] at hadopt

/-! ## Copies of nodes -/

/-- A tree with a copy of all nodes below a node; `copyOf` tells which is the copy of which. -/
structure Duplicated (t : Tree) (id : Nat) (copyOf : Nat → Nat) (u : Tree) : Prop where
  /-- All nodes are still there, as they were. -/
  kept : t.Extends u
  /-- As many nodes are new as are copied. -/
  size_eq : u.size = t.size + (t.nodesBelow id).length
  /-- Copies are new nodes. -/
  isNew : ∀ c, c ∈ t.nodesBelow id → t.size ≤ copyOf c ∧ copyOf c < u.size
  /-- Different nodes have different copies. -/
  eq_of_copyOf : ∀ a b, a ∈ t.nodesBelow id → b ∈ t.nodesBelow id → copyOf a = copyOf b → a = b
  /-- All new nodes are copies. -/
  exists_copyOf : ∀ k, t.size ≤ k → k < u.size → ∃ c ∈ t.nodesBelow id, copyOf c = k
  /-- The copy of the node itself is the last one. -/
  copyOf_top : copyOf id = u.size - 1
  /-- It belongs to no document. -/
  parent?_top : u.parent? (copyOf id) = none
  /-- Copies are the same pages and documents. -/
  item?_eq : ∀ c, c ∈ t.nodesBelow id → u.item? (copyOf c) = t.item? c
  /-- They have the same children, in the same order. -/
  childrenOf_eq : ∀ c, c ∈ t.nodesBelow id → u.childrenOf (copyOf c) = (t.childrenOf c).map copyOf
  /-- They have the same parents. -/
  parent?_eq : ∀ c, c ∈ t.nodesBelow id → c ≠ id → ∃ d ∈ t.nodesBelow id,
    t.parent? c = some d ∧ u.parent? (copyOf c) = some (copyOf d)
  /-- Children and parents agree. -/
  mem_childrenOf : ∀ c d, c ∈ u.childrenOf d ↔ u.parent? c = some d

theorem CopiesAll.perm {id : Nat} {order : List Nat} (hc : t.CopiesAll s [id] order u) :
    order.Perm (t.nodesBelow id) := by
  refine (List.perm_ext_iff_of_nodup hc.nodup (t.nodup_nodesBelow id)).mpr fun c => ?_
  rw [hc.mem_order, mem_nodesBelow]
  simp

theorem CopiesAll.embeds {id : Nat} {order : List Nat} (hc : t.CopiesAll s [id] order u) :
    t.Embeds id (s.placed order) u where
  item?_eq c hm := hc.item?_eq c (hc.perm.mem_iff.mpr (mem_nodesBelow.mpr hm))
  childrenOf_eq c hm := hc.childrenOf_eq c (hc.perm.mem_iff.mpr (mem_nodesBelow.mpr hm))

/-- Copying a known node succeeds, and the copy can be found again. -/
theorem WellFormed.exists_duplicated (h : t.WellFormed P) {id : Nat} (hid : id < t.size) :
    ∃ u copyOf, t.deepCopy id = .ok u ∧ u.WellFormed P ∧ t.Duplicated id copyOf u ∧
      t.Embeds id copyOf u := by
  obtain ⟨b, front, hb, hc⟩ := h.copies_graft hid t
  obtain ⟨item, u, -, hu, hgrown⟩ := h.deepCopy hid
  have hgraft : t.graft b = u := by
    rw [Tree.deepCopy, hb] at hu
    exact Except.ok.inj hu
  rw [hgraft] at hc
  have hmem : ∀ c, c ∈ t.nodesBelow id ↔ c ∈ front ++ [id] := fun c => hc.perm.mem_iff.symm
  have hfront : id ∉ front := fun hm => (List.nodup_append.mp hc.nodup).2.2 id hm id (.head _) rfl
  have hlast : t.placed (front ++ [id]) id = u.size - 1 := by
    rw [placed, List.idxOf_append_of_notMem hfront, List.idxOf_cons_self, hc.size_eq,
      List.length_append, List.length_singleton]
    rfl
  refine ⟨u, t.placed (front ++ [id]), hu, hgrown.wellFormed, ?_, hc.embeds⟩
  constructor
  case kept => exact hc.kept
  case size_eq => rw [hc.size_eq, hc.perm.length_eq]
  case isNew =>
    exact fun c hm => ⟨Nat.le_add_right _ _, hc.placed_lt_size ((hmem c).mp hm)⟩
  case eq_of_copyOf =>
    intro a b ha hb heq
    exact (List.idxOf_inj ((hmem a).mp ha)).mp (Nat.add_left_cancel heq)
  case exists_copyOf =>
    intro k hle hlt
    have hpos : k - t.size < (front ++ [id]).length := by
      rw [hc.size_eq] at hlt
      omega
    refine ⟨(front ++ [id])[k - t.size], (hmem _).mpr (List.getElem_mem hpos), ?_⟩
    rw [placed, hc.nodup.idxOf_getElem, Nat.add_sub_of_le hle]
  case copyOf_top => exact hlast
  case parent?_top =>
    rw [hlast]
    exact hgrown.parent?_last
  case item?_eq => exact fun c hm => hc.item?_eq c ((hmem c).mp hm)
  case childrenOf_eq => exact fun c hm => hc.childrenOf_eq c ((hmem c).mp hm)
  case parent?_eq =>
    intro c hm hne
    have hbelow := mem_nodesBelow.mp hm
    cases hp : t.parent? c with
    | none =>
        rw [climb_of_root (lt_size_of_mem_climb hbelow) hp, List.mem_singleton] at hbelow
        exact absurd hbelow.symm hne
    | some d =>
        rw [h.climb_of_parent? hp] at hbelow
        have hd := (List.mem_cons.mp hbelow).resolve_left (Ne.symm hne)
        exact ⟨d, mem_nodesBelow.mpr hd, rfl, hc.embeds.parent?_eq h hgrown.wellFormed hp hd⟩
  case mem_childrenOf => exact hgrown.wellFormed.mem_childrenOf

/-- What a tree can copy, and what the copies are like. -/
structure CopiesFreely (t : Tree) : Prop where
  /-- A node can be copied together with all nodes that children of children lead to. -/
  mem_below : ∀ id c, id < t.size →
    (c ∈ t.nodesBelow id ↔ Relation.ReflTransGen (fun d k => k ∈ t.childrenOf d) id c)
  nodup_below : ∀ id, (t.nodesBelow id).Nodup
  /-- Copies are like what they were made of, and relative paths stay the same whatever becomes
  of the tree. -/
  copied : ∀ id, id < t.size → ∃ u copyOf, t.deepCopy id = .ok u ∧ t.change (.copy id) = u ∧
    t.Duplicated id copyOf u ∧
    ∀ (later : List Change) (a b : Nat), a ∈ t.nodesBelow id → b ∈ t.nodesBelow id →
      SameRelative (later.foldl change u) (copyOf a) (copyOf b) (later.foldl change u) a b
  /-- Unknown nodes are reported, and the tree stays as it was. -/
  unknown : ∀ id, t.size ≤ id →
    t.deepCopy id = .error (.unknownNode id) ∧ t.change (.copy id) = t

/-- Whatever the changes, all nodes of a tree can be copied freely. -/
theorem copiesFreely_make (changes : List Change) : (make changes).CopiesFreely := by
  have anything : ∀ changes : List Change, ∀ c ∈ changes, c.Adds fun _ => True :=
    fun _ c _ => by cases c <;> trivial
  have h := wellFormed_make (anything changes)
  generalize make changes = t at h
  constructor
  case mem_below =>
    intro id c hid
    rw [mem_nodesBelow, h.mem_climb_iff hid]
  case nodup_below => exact t.nodup_nodesBelow
  case copied =>
    intro id hid
    obtain ⟨u, copyOf, hu, hwf, hcopy, hembeds⟩ := h.exists_duplicated hid
    refine ⟨u, copyOf, hu, by rw [change, hu], hcopy, fun later a b ha hb => ?_⟩
    have hlater := hwf.changeAll (anything later)
    have hkept := hwf.keeps_changeAll (anything later)
    have hcopied := hembeds.keeps hkept
    have horiginal := ((Embeds.refl t id).keeps hcopy.kept.keeps).keeps hkept
    exact hcopied.sameRelative h hlater hlater horiginal (mem_nodesBelow.mp ha)
      (mem_nodesBelow.mp hb)
  case unknown =>
    intro id hid
    have he := deepCopy_eq_error hid
    exact ⟨he, by rw [change, he]⟩

end Tree

end PageLoom
