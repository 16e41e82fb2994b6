import PageLoom.Proofs.Tree.WellFormed
import PageLoom.Tree.Path
import Mathlib.Data.List.Chain

/-!
# Climbing a well-formed tree

In a well-formed tree a parent has a greater id than its child, so climbing from a
node follows every parent link (`climb_of_parent?`) and ends at a node without a
parent.  `WellFormed.upward` is the induction that goes with it: what holds of all
nodes without a parent, and of a child if it holds of its parent, holds of all nodes.

Names and entries from the root of its tree down to a node are `namesTo` and
`entriesTo`.  Nodes of one tree with the same names, or with the same entries, are
the same (`eq_of_keysTo`).
-/

namespace PageLoom

namespace Tree

variable {P : Item → Prop} {t : Tree}

/-! ## The nodes above a node -/

theorem climb_of_unknown {id : Nat} (h : t.size ≤ id) : t.climb id = [] := by
  rw [climb]
  split
  · rfl
  next hn => exact absurd (lt_size_of_get? hn) (Nat.not_lt.mpr h)

theorem climb_of_root {id : Nat} (hid : id < t.size) (h : t.parent? id = none) :
    t.climb id = [id] := by
  obtain ⟨n, hn⟩ := exists_get? hid
  rw [parent?_of_get? hn] at h
  rw [climb]
  split
  next hn' => cases hn'.symm.trans hn
  next m hm =>
    cases hm.symm.trans hn
    rw [h]

/-- The way up from a child goes on as the way up from its parent. -/
theorem WellFormed.climb_of_parent? (h : t.WellFormed P) {c d : Nat} (hp : t.parent? c = some d) :
    t.climb c = c :: t.climb d := by
  obtain ⟨n, hn⟩ := exists_get? (lt_size_of_parent? hp)
  have hlt := h.lt_of_parent? c d hp
  rw [parent?_of_get? hn] at hp
  rw [climb]
  split
  next hn' => cases hn'.symm.trans hn
  next m hm =>
    cases hm.symm.trans hn
    simp only [hp, if_pos hlt]

/-- Climbing follows every parent link. -/
theorem WellFormed.climb_eq (h : t.WellFormed P) {id : Nat} (hid : id < t.size) :
    t.climb id = id :: ((t.parent? id).map t.climb).getD [] := by
  cases hp : t.parent? id with
  | none => rw [climb_of_root hid hp]; rfl
  | some d => rw [h.climb_of_parent? hp]; rfl

/-- From the nodes without a parent to all that are below them. -/
theorem WellFormed.upward (h : t.WellFormed P) {motive : Nat → Prop}
    (root : ∀ r, r < t.size → t.parent? r = none → motive r)
    (child : ∀ c d, t.parent? c = some d → motive d → motive c) :
    ∀ id, id < t.size → motive id := by
  -- On the number of greater ids: a parent has fewer of them.
  suffices hk : ∀ k id, id < t.size → t.size - id = k → motive id from
    fun id hid => hk _ id hid rfl
  intro k
  induction k using Nat.strongRecOn with
  | ind k ih =>
      intro id hid hk
      cases hp : t.parent? id with
      | none => exact root id hid hp
      | some d =>
          have hlt := h.lt_of_parent? id d hp
          have hd := h.lt_size_of_isParent hp
          exact child id d hp (ih (t.size - d) (by omega) d hd rfl)

theorem WellFormed.head?_climb (h : t.WellFormed P) {id : Nat} (hid : id < t.size) :
    (t.climb id).head? = some id := by rw [h.climb_eq hid]; rfl

/-- Each step of the way up goes from a node to its parent. -/
theorem WellFormed.isChain_climb (h : t.WellFormed P) {id : Nat} (hid : id < t.size) :
    (t.climb id).IsChain fun c d => t.parent? c = some d := by
  refine h.upward (motive := fun id => (t.climb id).IsChain fun c d => t.parent? c = some d)
    (fun r hr hp => ?_) (fun c d hp ih => ?_) id hid
  · rw [climb_of_root hr hp]
    exact .singleton r
  · rw [h.climb_of_parent? hp]
    refine List.isChain_cons.mpr ⟨fun e he => ?_, ih⟩
    rw [h.head?_climb (h.lt_size_of_isParent hp)] at he
    cases he
    exact hp

theorem WellFormed.known_of_mem_climb (h : t.WellFormed P) {id : Nat} (hid : id < t.size) :
    ∀ c ∈ t.climb id, c < t.size := by
  refine h.upward (motive := fun id => ∀ c ∈ t.climb id, c < t.size)
    (fun r hr hp c hc => ?_) (fun c d hp ih e he => ?_) id hid
  · rw [climb_of_root hr hp] at hc
    cases List.mem_singleton.mp hc
    exact hr
  · rw [h.climb_of_parent? hp] at he
    rcases List.mem_cons.mp he with rfl | he
    · exact lt_size_of_parent? hp
    · exact ih e he

/-! ## Roots -/

theorem rootOf_of_unknown {id : Nat} (h : t.size ≤ id) :
    t.rootOf id = .error (.unknownNode id) := by rw [rootOf, climb_of_unknown h]; rfl

theorem rootOf_of_root {id : Nat} (hid : id < t.size) (h : t.parent? id = none) :
    t.rootOf id = .ok id := by rw [rootOf, climb_of_root hid h]; rfl

/-- A child and its parent have the same root. -/
theorem WellFormed.rootOf_of_parent? (h : t.WellFormed P) {c d : Nat}
    (hp : t.parent? c = some d) : t.rootOf c = t.rootOf d := by
  have hd := h.lt_size_of_isParent hp
  rw [rootOf, h.climb_of_parent? hp, rootOf]
  obtain ⟨r, hr⟩ : ∃ r, (t.climb d).getLast? = some r := by
    rw [h.climb_eq hd]
    exact ⟨_, List.getLast?_eq_some_getLast (by simp)⟩
  rw [List.getLast?_cons, hr]
  rfl

/-- Every known node is in the tree of a node without a parent. -/
theorem WellFormed.exists_rootOf (h : t.WellFormed P) {id : Nat} (hid : id < t.size) :
    ∃ r, t.rootOf id = .ok r ∧ r < t.size ∧ t.parent? r = none := by
  refine h.upward (motive := fun id => ∃ r, t.rootOf id = .ok r ∧ r < t.size ∧ t.parent? r = none)
    (fun r hr hp => ?_) (fun c d hp ih => ?_) id hid
  · exact ⟨r, rootOf_of_root hr hp, hr, hp⟩
  · rw [h.rootOf_of_parent? hp]
    exact ih

theorem lt_size_of_rootOf {id r : Nat} (h : t.rootOf id = .ok r) : id < t.size := by
  refine Nat.lt_of_not_le fun hle => ?_
  rw [rootOf_of_unknown hle] at h
  cases h

/-- The root that is found is a node of the tree without a parent. -/
theorem WellFormed.root_of_rootOf (h : t.WellFormed P) {id r : Nat} (hr : t.rootOf id = .ok r) :
    r < t.size ∧ t.parent? r = none := by
  obtain ⟨s, hs, hroot⟩ := h.exists_rootOf (lt_size_of_rootOf hr)
  cases hr.symm.trans hs
  exact hroot

/-- The way up ends at the root. -/
theorem getLast?_climb {id r : Nat} (hr : t.rootOf id = .ok r) :
    (t.climb id).getLast? = some r := by
  rw [rootOf] at hr
  split at hr
  next hl =>
    cases hr
    exact hl
  next => cases hr

/-! ## Names and entries down to a node -/

/-- What `key` says of the items from the root of its tree down to a node. -/
def keysTo (t : Tree) (key : Item → String) (id : Nat) : List String :=
  ((t.climb id).reverse.filterMap t.item?).map key

/-- The names from the root of its tree down to a node. -/
abbrev namesTo (t : Tree) (id : Nat) : List String := t.keysTo Item.name id

/-- The entries from the root of its tree down to a node. -/
abbrev entriesTo (t : Tree) (id : Nat) : List String := t.keysTo Item.entry id

theorem keysTo_of_root {key : Item → String} {id : Nat} {item : Item}
    (hi : t.item? id = some item) (h : t.parent? id = none) : t.keysTo key id = [key item] := by
  rw [keysTo, climb_of_root (lt_size_of_item? hi) h]
  simp [hi]

/-- The keys on the way down to a child are those to its parent and then its own. -/
theorem WellFormed.keysTo_of_parent? (h : t.WellFormed P) {key : Item → String} {c d : Nat}
    {item : Item} (hi : t.item? c = some item) (hp : t.parent? c = some d) :
    t.keysTo key c = t.keysTo key d ++ [key item] := by
  rw [keysTo, h.climb_of_parent? hp, List.reverse_cons, List.filterMap_append]
  simp [keysTo, hi]

theorem WellFormed.keysTo_ne_nil (h : t.WellFormed P) (key : Item → String) {id : Nat}
    (hid : id < t.size) : t.keysTo key id ≠ [] := by
  obtain ⟨item, hi⟩ := exists_item? hid
  cases hp : t.parent? id with
  | none => rw [keysTo_of_root hi hp]; simp
  | some d => rw [h.keysTo_of_parent? hi hp]; simp

/-- Only a node without a parent stands alone. -/
theorem WellFormed.length_keysTo_eq_one (h : t.WellFormed P) (key : Item → String) {id : Nat}
    (hid : id < t.size) : (t.keysTo key id).length = 1 ↔ t.parent? id = none := by
  obtain ⟨item, hi⟩ := exists_item? hid
  cases hp : t.parent? id with
  | none => simp [keysTo_of_root hi hp]
  | some d =>
      have hpos := List.length_pos_iff.mpr (h.keysTo_ne_nil key (h.lt_size_of_isParent hp))
      rw [h.keysTo_of_parent? hi hp, List.length_append, List.length_singleton]
      refine ⟨fun hlen => ?_, fun hsome => by cases hsome⟩
      omega

/-- The way down to a node starts at its root. -/
theorem WellFormed.exists_keysTo_eq_cons (h : t.WellFormed P) (key : Item → String) {id r : Nat}
    {item : Item} (hr : t.rootOf id = .ok r) (hi : t.item? r = some item) :
    ∃ rest, t.keysTo key id = key item :: rest ∧ (rest = [] ↔ t.parent? id = none) := by
  have hid := lt_size_of_rootOf hr
  suffices hcons : ∃ rest, t.keysTo key id = key item :: rest by
    obtain ⟨rest, hrest⟩ := hcons
    refine ⟨rest, hrest, ?_⟩
    rw [← h.length_keysTo_eq_one key hid, hrest, List.length_cons]
    simp
  revert hr
  refine h.upward (motive := fun id => t.rootOf id = .ok r → ∃ rest, t.keysTo key id =
    key item :: rest) (fun s hs hp hr => ?_) (fun c d hp ih hr => ?_) id hid
  · rw [rootOf_of_root hs hp] at hr
    cases hr
    exact ⟨[], keysTo_of_root hi hp⟩
  · rw [h.rootOf_of_parent? hp] at hr
    obtain ⟨rest, hrest⟩ := ih hr
    obtain ⟨j, hj⟩ := exists_item? (lt_size_of_parent? hp)
    exact ⟨rest ++ [key j], by rw [h.keysTo_of_parent? hj hp, hrest]; rfl⟩

/-- What holds of the key of every item holds along the whole way. -/
theorem WellFormed.forall_keysTo (h : t.WellFormed P) {key : Item → String} {Q : String → Prop}
    (hQ : ∀ item, P item → Q (key item)) (id : Nat) : ∀ s ∈ t.keysTo key id, Q s := by
  intro s hs
  obtain ⟨item, hm, rfl⟩ := List.mem_map.mp hs
  obtain ⟨c, -, hc⟩ := List.mem_filterMap.mp hm
  exact hQ item (h.items c item hc)

/-- A key that tells the children of every document apart tells the nodes of a tree
apart by what it says on the way down. -/
theorem WellFormed.eq_of_keysTo (h : t.WellFormed P) {key : Item → String}
    (apart : ∀ a b d i j, t.parent? a = some d → t.parent? b = some d → t.item? a = some i →
      t.item? b = some j → key i = key j → a = b) {a b : Nat}
    (hroot : t.rootOf a = t.rootOf b) (hkeys : t.keysTo key a = t.keysTo key b)
    (ha : a < t.size) : a = b := by
  revert b
  refine h.upward (motive := fun a => ∀ {b}, t.rootOf a = t.rootOf b →
    t.keysTo key a = t.keysTo key b → a = b) (fun r hr hp b hroot hkeys => ?_)
    (fun c d hp ih b hroot hkeys => ?_) a ha
  · rw [rootOf_of_root hr hp] at hroot
    have hb := lt_size_of_rootOf hroot.symm
    have hq : t.parent? b = none := by
      rw [← h.length_keysTo_eq_one key hb, ← hkeys, h.length_keysTo_eq_one key hr]
      exact hp
    rw [rootOf_of_root hb hq] at hroot
    exact Except.ok.inj hroot
  · have hc := lt_size_of_parent? hp
    obtain ⟨r, hr, -⟩ := h.exists_rootOf hc
    have hb := lt_size_of_rootOf (hroot.symm.trans hr)
    obtain ⟨i, hi⟩ := exists_item? hc
    obtain ⟨j, hj⟩ := exists_item? hb
    cases hq : t.parent? b with
    | none =>
        rw [← h.length_keysTo_eq_one key hb, ← hkeys, h.length_keysTo_eq_one key hc, hp] at hq
        cases hq
    | some e =>
        rw [h.keysTo_of_parent? hi hp, h.keysTo_of_parent? hj hq] at hkeys
        obtain ⟨hde, hij⟩ := List.append_inj' hkeys rfl
        rw [h.rootOf_of_parent? hp, h.rootOf_of_parent? hq] at hroot
        cases ih hroot hde
        exact apart c b d i j hp hq hi hj (List.cons.inj hij).1

end Tree

end PageLoom
