import PageLoom.Proofs.Tree.Address
import Mathlib.Logic.Relation
import Mathlib.Tactic.WLOG

/-!
# Below a node

A node is below another one if climbing from it comes past the other one, or, what is the
same, if children of children lead to it (`mem_climb_iff`).  What is below a document is below
one of its children, and no other (`exists_parent?_of_mem_climb`, `eq_of_mem_climb`).

The nodes and the entries on the way down are `wayFrom` and `entriesFrom`.  They can be read
from the top, child by child (`entriesFrom_of_parent?`).  From the root of a tree they are the
entries down to a node (`entriesFrom_of_root`), and different nodes below a node have
different ones (`eq_of_entriesFrom`).
-/

namespace PageLoom

namespace Tree

variable {P : Item → Prop} {t : Tree}

/-! ## Nodes below a node -/

/-- The nodes from `id` down to a node below it. -/
def wayFrom (t : Tree) (id c : Nat) : List Nat := id :: ((t.climb c).takeWhile (· != id)).reverse

/-- The entries from `id` down to a node below it. -/
def entriesFrom (t : Tree) (id c : Nat) : List String :=
  ((t.wayFrom id c).filterMap t.item?).map Item.entry

/-- The pages below a node, or the node itself if it is a page. -/
def pagesBelow (t : Tree) (id : Nat) : List Nat :=
  (List.range t.size).filter fun c =>
    (t.climb c).contains id && ((t.item? c).bind Item.page?).isSome

theorem lt_size_of_mem_climb {c k : Nat} (h : k ∈ t.climb c) : c < t.size := by
  refine Nat.lt_of_not_le fun hle => ?_
  rw [climb_of_unknown hle] at h
  cases h

theorem isSome_page?_iff {c : Nat} :
    ((t.item? c).bind Item.page?).isSome = true ↔ ∃ p, t.item? c = some (.page p) := by
  cases hi : t.item? c with
  | none => simp
  | some item => cases item <;> simp [Item.page?]

theorem mem_pagesBelow {id c : Nat} :
    c ∈ t.pagesBelow id ↔ id ∈ t.climb c ∧ ∃ p, t.item? c = some (.page p) := by
  rw [pagesBelow, List.mem_filter, List.mem_range, Bool.and_eq_true, List.contains_iff_mem,
    isSome_page?_iff]
  exact ⟨fun h => h.2, fun h => ⟨lt_size_of_mem_climb h.1, h⟩⟩

theorem nodup_pagesBelow (t : Tree) (id : Nat) : (t.pagesBelow id).Nodup :=
  List.nodup_range.filter _

/-! ## Climbing past a node -/

/-- Climbing goes up. -/
theorem WellFormed.pairwise_climb (h : t.WellFormed P) {c : Nat} (hc : c < t.size) :
    (t.climb c).Pairwise (· < ·) :=
  ((h.isChain_climb hc).imp fun _ _ hp => h.lt_of_parent? _ _ hp).pairwise

theorem WellFormed.le_of_mem_climb (h : t.WellFormed P) {c k : Nat} (hk : k ∈ t.climb c) :
    c ≤ k := by
  have hc := lt_size_of_mem_climb hk
  have hpair := h.pairwise_climb hc
  rw [h.climb_eq hc] at hk hpair
  rcases List.mem_cons.mp hk with rfl | hk
  · exact Nat.le_refl _
  · exact Nat.le_of_lt ((List.pairwise_cons.mp hpair).1 k hk)

/-- Climbing past a node goes on as climbing from it. -/
theorem WellFormed.climb_eq_append (h : t.WellFormed P) {c k : Nat} (hk : k ∈ t.climb c) :
    t.climb c = (t.climb c).takeWhile (· != k) ++ t.climb k := by
  refine h.upward (motive := fun c => k ∈ t.climb c →
    t.climb c = (t.climb c).takeWhile (· != k) ++ t.climb k)
    (fun r hr hp hk => ?_) (fun c d hp ih hk => ?_) c (lt_size_of_mem_climb hk) hk
  · rw [climb_of_root hr hp, List.mem_singleton] at hk
    rw [hk, climb_of_root hr hp, List.takeWhile_cons_of_neg (by simp)]
    rfl
  · rw [h.climb_of_parent? hp] at hk ⊢
    by_cases he : c = k
    · rw [List.takeWhile_cons_of_neg (by simp [he]), ← he, h.climb_of_parent? hp]
      rfl
    · rw [List.takeWhile_cons_of_pos (by simp [he]), List.cons_append,
        ← ih ((List.mem_cons.mp hk).resolve_left (Ne.symm he))]

/-- The nodes above a node follow one another. -/
theorem WellFormed.mem_climb_of_le (h : t.WellFormed P) {a b c : Nat} (ha : a ∈ t.climb c)
    (hb : b ∈ t.climb c) (hle : a ≤ b) : b ∈ t.climb a := by
  have hpair := h.pairwise_climb (lt_size_of_mem_climb ha)
  have hself : a ∈ t.climb a := by
    rw [h.climb_eq (h.known_of_mem_climb (lt_size_of_mem_climb ha) a ha)]
    exact .head _
  rw [h.climb_eq_append ha] at hb hpair
  rcases List.mem_append.mp hb with hb | hb
  · exact absurd hle (Nat.not_le.mpr ((List.pairwise_append.mp hpair).2.2 b hb a hself))
  · exact hb

theorem WellFormed.mem_climb_of_parent? (h : t.WellFormed P) {c d k : Nat}
    (hp : t.parent? k = some d) (hk : k ∈ t.climb c) : d ∈ t.climb c := by
  rw [h.climb_eq_append hk, h.climb_of_parent? hp, h.climb_eq (h.lt_size_of_isParent hp)]
  simp

/-- Below a node, but not the node itself, is below one of its children. -/
theorem WellFormed.exists_parent?_of_mem_climb (h : t.WellFormed P) {c d : Nat}
    (hd : d ∈ t.climb c) (hne : c ≠ d) : ∃ k, t.parent? k = some d ∧ k ∈ t.climb c := by
  refine h.upward (motive := fun c => d ∈ t.climb c → c ≠ d →
    ∃ k, t.parent? k = some d ∧ k ∈ t.climb c) (fun r hr hp hd hne => ?_)
    (fun c e hp ih hd hne => ?_) c (lt_size_of_mem_climb hd) hd hne
  · rw [climb_of_root hr hp, List.mem_singleton] at hd
    exact absurd hd.symm hne
  · rw [h.climb_of_parent? hp] at hd ⊢
    by_cases he : e = d
    · exact ⟨c, he ▸ hp, .head _⟩
    · obtain ⟨k, hk, hm⟩ := ih ((List.mem_cons.mp hd).resolve_left (Ne.symm hne)) he
      exact ⟨k, hk, .tail _ hm⟩

/-- A page below a document is below one of its children. -/
theorem WellFormed.exists_child_of_page (h : t.WellFormed P) {c d : Nat} {doc : Document}
    {p : Page} (hd : t.item? d = some (.document doc)) (hc : t.item? c = some (.page p))
    (hbelow : d ∈ t.climb c) : ∃ k, t.parent? k = some d ∧ k ∈ t.climb c := by
  refine h.exists_parent?_of_mem_climb hbelow ?_
  rintro rfl
  cases hd.symm.trans hc

/-- Nothing is below a page but the page itself. -/
theorem WellFormed.eq_of_mem_climb_page (h : t.WellFormed P) {c d : Nat} {p : Page}
    (hd : t.item? d = some (.page p)) (hbelow : d ∈ t.climb c) : c = d := by
  by_contra hne
  obtain ⟨k, hp, -⟩ := h.exists_parent?_of_mem_climb hbelow hne
  obtain ⟨doc, hdoc, -⟩ := h.fits_of_parent? hp
  cases hd.symm.trans hdoc

/-- A node is below one child of a document only. -/
theorem WellFormed.eq_of_mem_climb (h : t.WellFormed P) {a b c d : Nat}
    (ha : t.parent? a = some d) (hb : t.parent? b = some d) (hac : a ∈ t.climb c)
    (hbc : b ∈ t.climb c) : a = b := by
  wlog hle : a ≤ b generalizing a b
  · exact (this hb ha hbc hac (Nat.le_of_not_le hle)).symm
  have hm := h.mem_climb_of_le hac hbc hle
  rw [h.climb_of_parent? ha] at hm
  refine ((List.mem_cons.mp hm).resolve_right fun hm => ?_).symm
  exact absurd (h.le_of_mem_climb hm) (Nat.not_le.mpr (h.lt_of_parent? b d hb))

/-- Climbing comes past a node if children of children lead down from it. -/
theorem WellFormed.mem_climb_iff (h : t.WellFormed P) {id c : Nat} (hid : id < t.size) :
    id ∈ t.climb c ↔ Relation.ReflTransGen (fun d k => k ∈ t.childrenOf d) id c := by
  constructor
  · intro hm
    refine h.upward (motive := fun c => id ∈ t.climb c →
      Relation.ReflTransGen (fun d k => k ∈ t.childrenOf d) id c) (fun r hr hp hm => ?_)
      (fun c d hp ih hm => ?_) c (lt_size_of_mem_climb hm) hm
    · rw [climb_of_root hr hp, List.mem_singleton] at hm
      rw [hm]
    · rw [h.climb_of_parent? hp] at hm
      rcases List.mem_cons.mp hm with rfl | hm
      · exact .refl
      · exact (ih hm).tail ((h.mem_childrenOf c d).mpr hp)
  · intro hway
    induction hway with
    | refl =>
        rw [h.climb_eq hid]
        exact .head _
    | tail _ hk ih =>
        rw [h.climb_of_parent? ((h.mem_childrenOf _ _).mp hk)]
        exact .tail _ ih

theorem WellFormed.rootOf_of_mem_climb (h : t.WellFormed P) {c k : Nat} (hk : k ∈ t.climb c) :
    t.rootOf c = t.rootOf k := by
  obtain ⟨r, hr, -⟩ := h.exists_rootOf (h.known_of_mem_climb (lt_size_of_mem_climb hk) k hk)
  have hlast := getLast?_climb hr
  have hne : t.climb k ≠ [] := fun hnil => by
    rw [hnil] at hlast
    cases hlast
  rw [hr, rootOf, h.climb_eq_append hk, List.getLast?_append_of_ne_nil _ hne, hlast]

/-! ## The way down -/

theorem entriesFrom_eq_cons {id c : Nat} {item : Item} (hi : t.item? id = some item) :
    t.entriesFrom id c = item.entry ::
      ((((t.climb c).takeWhile (· != id)).reverse).filterMap t.item?).map Item.entry := by
  rw [entriesFrom, wayFrom, List.filterMap_cons, hi]
  rfl

theorem WellFormed.entriesFrom_self (h : t.WellFormed P) {id : Nat} {item : Item}
    (hi : t.item? id = some item) : t.entriesFrom id id = [item.entry] := by
  rw [entriesFrom_eq_cons hi, h.climb_eq (lt_size_of_item? hi),
    List.takeWhile_cons_of_neg (by simp)]
  rfl

/-- The way down to a node goes through the child that it is below. -/
theorem WellFormed.entriesFrom_of_parent? (h : t.WellFormed P) {c d k : Nat} {item : Item}
    (hd : t.item? d = some item) (hp : t.parent? k = some d) (hk : k ∈ t.climb c) :
    t.entriesFrom d c = item.entry :: t.entriesFrom k c := by
  have hway : (t.climb c).takeWhile (· != d) = (t.climb c).takeWhile (· != k) ++ [k] := by
    have hpair := h.pairwise_climb (lt_size_of_mem_climb hk)
    have hlt := h.lt_of_parent? k d hp
    have hclimb := h.climb_eq_append hk
    rw [h.climb_of_parent? hp, h.climb_eq (h.lt_size_of_isParent hp)] at hclimb
    generalize (t.climb c).takeWhile (· != k) = more at hclimb ⊢
    rw [hclimb] at hpair ⊢
    have hmore : ∀ x ∈ more, (x != d) = true := fun x hx => by
      have := (List.pairwise_append.mp hpair).2.2 x hx k (.head _)
      exact bne_iff_ne.mpr (Nat.ne_of_lt (Nat.lt_trans this hlt))
    have hchild : (k != d) = true := bne_iff_ne.mpr (Nat.ne_of_lt hlt)
    rw [List.takeWhile_append_of_pos hmore, List.takeWhile_cons_of_pos (p := (· != d)) hchild,
      List.takeWhile_cons_of_neg (by simp)]
  rw [entriesFrom_eq_cons hd, hway, List.reverse_append]
  rfl

/-- The entries down to a node are those down to a node above it, and on from there. -/
theorem WellFormed.entriesTo_eq_append (h : t.WellFormed P) {c k : Nat} (hk : k ∈ t.climb c) :
    t.entriesTo c = t.entriesTo k ++ (t.entriesFrom k c).tail := by
  obtain ⟨item, hi⟩ := exists_item? (h.known_of_mem_climb (lt_size_of_mem_climb hk) k hk)
  rw [entriesFrom_eq_cons hi, List.tail_cons, entriesTo, keysTo, h.climb_eq_append hk,
    List.reverse_append, List.filterMap_append, List.map_append, ← h.climb_eq_append hk]
  rfl

/-- Below a root, the way starts at the root. -/
theorem WellFormed.entriesFrom_of_root (h : t.WellFormed P) {c r : Nat}
    (hr : t.parent? r = none) (hc : r ∈ t.climb c) : t.entriesFrom r c = t.entriesTo c := by
  obtain ⟨item, hi⟩ := exists_item? (h.known_of_mem_climb (lt_size_of_mem_climb hc) r hc)
  rw [h.entriesTo_eq_append hc, entriesTo, keysTo_of_root hi hr, entriesFrom_eq_cons hi]
  rfl

/-- Nodes below one node are told apart by the entries on the way. -/
theorem WellFormed.eq_of_entriesFrom (h : t.WellFormed P) {a b id : Nat} (ha : id ∈ t.climb a)
    (hb : id ∈ t.climb b) (heq : (t.entriesFrom id a).tail = (t.entriesFrom id b).tail) :
    a = b := by
  refine h.eq_of_entriesTo (lt_size_of_mem_climb ha) ?_ ?_
  · rw [h.rootOf_of_mem_climb ha, h.rootOf_of_mem_climb hb]
  · rw [h.entriesTo_eq_append ha, h.entriesTo_eq_append hb, heq]

/-- The way from a document to a page below it goes on after the document. -/
theorem WellFormed.tail_entriesFrom_ne_nil (h : t.WellFormed P) {c d : Nat} {doc : Document}
    {p : Page} (hd : t.item? d = some (.document doc)) (hc : t.item? c = some (.page p))
    (hbelow : d ∈ t.climb c) : (t.entriesFrom d c).tail ≠ [] := by
  obtain ⟨k, hp, hk⟩ := h.exists_child_of_page hd hc hbelow
  obtain ⟨item, hi⟩ := exists_item? (lt_size_of_parent? hp)
  rw [h.entriesFrom_of_parent? hd hp hk, List.tail_cons, entriesFrom_eq_cons hi]
  exact List.cons_ne_nil _ _

theorem WellFormed.forall_entriesFrom (h : t.WellFormed P) {Q : String → Prop}
    (hQ : ∀ item, P item → Q item.entry) (id c : Nat) : ∀ s ∈ t.entriesFrom id c, Q s := by
  intro s hs
  obtain ⟨item, hm, rfl⟩ := List.mem_map.mp hs
  obtain ⟨k, -, hk⟩ := List.mem_filterMap.mp hm
  exact hQ item (h.items k item hk)

end Tree

end PageLoom
