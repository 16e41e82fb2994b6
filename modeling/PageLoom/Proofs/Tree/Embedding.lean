import PageLoom.Proofs.Tree.Below
import PageLoom.Proofs.Tree.Copy
import PageLoom.Proofs.Tree.Relative
import Mathlib.Data.List.Find

/-!
# What stands in two places

`Tree.Embeds` says that all nodes below a node of one tree are found again in another tree: as
the same items, with the same children in the same order.  In well-formed trees, what is read
below the node is then the same in both: parents, indexes, and the entries on the way down
(`Embeds.entriesTo_eq`).  Only the way from the root to the node is another one.

Relative paths leave that way out, so those between two nodes below are the same wherever the
node is found (`Embeds.sameRelative`).
-/

namespace PageLoom

namespace Tree

/-- All that is below a node is found again: as the same items, with the same children. -/
structure Embeds (t : Tree) (id : Nat) (f : Nat → Nat) (u : Tree) : Prop where
  item?_eq : ∀ c, id ∈ t.climb c → u.item? (f c) = t.item? c
  childrenOf_eq : ∀ c, id ∈ t.climb c → u.childrenOf (f c) = (t.childrenOf c).map f

/-- The relative path between two nodes of `u` is the one between two nodes of `v`. -/
def SameRelative (u : Tree) (a b : Nat) (v : Tree) (a' b' : Nat) : Prop :=
  ∃ source target source' target',
    u.physicalPath a = .ok source ∧ u.physicalPath b = .ok target ∧
    v.physicalPath a' = .ok source' ∧ v.physicalPath b' = .ok target' ∧
    relativePath source target = relativePath source' target'

variable {P : Item → Prop} {t u v : Tree} {id : Nat} {f g : Nat → Nat}

/-! ## On from a node -/

theorem WellFormed.mem_climb_self (h : t.WellFormed P) (hid : id < t.size) : id ∈ t.climb id := by
  rw [h.climb_eq hid]
  exact .head _

theorem WellFormed.mem_climb_of_child (h : t.WellFormed P) {c d : Nat} (hp : t.parent? c = some d)
    (hd : id ∈ t.climb d) : id ∈ t.climb c := by
  rw [h.climb_of_parent? hp]
  exact .tail _ hd

/-- The page of a node below another one is below it, too. -/
theorem WellFormed.mem_climb_of_pageOf? (h : t.WellFormed P) {c k : Nat}
    (hk : t.pageOf? c = some k) (hc : id ∈ t.climb c) : id ∈ t.climb k := by
  rw [pageOf?] at hk
  obtain ⟨item, hi, hk⟩ := Option.bind_eq_some_iff.mp hk
  cases item with
  | page p =>
      cases hk
      exact hc
  | document d =>
      obtain ⟨i, -, hindex, hp, -⟩ := h.exists_index hi
      cases hk.symm.trans hindex
      exact h.mem_climb_of_child hp hc

/-- The way down goes on from the parent. -/
theorem WellFormed.tail_entriesFrom_of_parent? (h : t.WellFormed P) {c d : Nat} {item : Item}
    (hi : t.item? c = some item) (hp : t.parent? c = some d) (hd : id ∈ t.climb d) :
    (t.entriesFrom id c).tail = (t.entriesFrom id d).tail ++ [item.entry] := by
  have hc := h.mem_climb_of_child hp hd
  have hentries : t.entriesTo c = t.entriesTo d ++ [item.entry] := h.keysTo_of_parent? hi hp
  rw [h.entriesTo_eq_append hc, h.entriesTo_eq_append hd, List.append_assoc] at hentries
  exact List.append_cancel_left hentries

theorem indexOf?_eq_find? (t : Tree) (d : Nat) :
    t.indexOf? d = (t.childrenOf d).find? fun c => (t.item? c).any Item.isIndex := by
  have hindex : (fun c => (t.get? c).any TreeNode.isIndex) =
      fun c => (t.item? c).any Item.isIndex := by
    funext c
    rw [item?, Option.any_map]
  rw [indexOf?, hindex, childrenOf]
  cases t.get? d <;> rfl

namespace Embeds

/-! ## Where a node is found -/

theorem refl (t : Tree) (id : Nat) : t.Embeds id (fun c => c) t where
  item?_eq _ _ := rfl
  childrenOf_eq _ _ := (List.map_id' _).symm

/-- What is found in a tree stays there when the tree grows. -/
theorem keeps (e : t.Embeds id f u) (hk : u.Keeps v) : t.Embeds id f v := by
  have known : ∀ c, id ∈ t.climb c → f c < u.size := fun c hc => by
    obtain ⟨item, hi⟩ := exists_item? (lt_size_of_mem_climb hc)
    exact lt_size_of_item? ((e.item?_eq c hc).trans hi)
  constructor
  case item?_eq => exact fun c hc => (hk (f c) (known c hc)).1.trans (e.item?_eq c hc)
  case childrenOf_eq => exact fun c hc => (hk (f c) (known c hc)).2.trans (e.childrenOf_eq c hc)

theorem parent?_eq (h : t.WellFormed P) (hu : u.WellFormed P) (e : t.Embeds id f u) {c d : Nat}
    (hp : t.parent? c = some d) (hd : id ∈ t.climb d) : u.parent? (f c) = some (f d) := by
  rw [← hu.mem_childrenOf, e.childrenOf_eq d hd]
  exact List.mem_map_of_mem ((h.mem_childrenOf c d).mpr hp)

/-- The entries down to a node that is found again: only those above the topmost one differ. -/
theorem entriesTo_eq (h : t.WellFormed P) (hu : u.WellFormed P) (e : t.Embeds id f u) {c : Nat}
    (hc : id ∈ t.climb c) :
    u.entriesTo (f c) = u.entriesTo (f id) ++ (t.entriesFrom id c).tail := by
  have self : id < t.size → u.entriesTo (f id) = u.entriesTo (f id) ++ (t.entriesFrom id id).tail :=
    fun hid => by
      obtain ⟨item, hi⟩ := exists_item? hid
      rw [h.entriesFrom_self hi, List.tail_cons, List.append_nil]
  refine h.upward (motive := fun c => id ∈ t.climb c →
    u.entriesTo (f c) = u.entriesTo (f id) ++ (t.entriesFrom id c).tail)
    (fun r hr hp hc => ?_) (fun c d hp ih hc => ?_) c (lt_size_of_mem_climb hc) hc
  · rw [climb_of_root hr hp, List.mem_singleton] at hc
    rw [← hc]
    exact self (hc ▸ hr)
  · have hknown := lt_size_of_parent? hp
    obtain ⟨item, hi⟩ := exists_item? hknown
    have hfound := (e.item?_eq c hc).trans hi
    rw [h.climb_of_parent? hp] at hc
    rcases List.mem_cons.mp hc with rfl | hd
    · exact self hknown
    · rw [entriesTo, hu.keysTo_of_parent? hfound (e.parent?_eq h hu hp hd), ← entriesTo, ih hd,
        h.tail_entriesFrom_of_parent? hi hp hd, List.append_assoc]

/-- The index of a document is found again as its index. -/
theorem indexOf?_eq (h : t.WellFormed P) (e : t.Embeds id f u) {d : Nat} (hd : id ∈ t.climb d) :
    u.indexOf? (f d) = (t.indexOf? d).map f := by
  rw [indexOf?_eq_find?, indexOf?_eq_find?, e.childrenOf_eq d hd, List.find?_map]
  refine congrArg (Option.map f) (List.find?_congr fun c hc => ?_)
  rw [Function.comp_apply,
    e.item?_eq c (h.mem_climb_of_child ((h.mem_childrenOf c d).mp hc) hd)]

theorem pageOf?_eq (h : t.WellFormed P) (e : t.Embeds id f u) {c : Nat} (hc : id ∈ t.climb c) :
    u.pageOf? (f c) = (t.pageOf? c).map f := by
  rw [pageOf?, pageOf?, e.item?_eq c hc]
  cases t.item? c with
  | none => rfl
  | some item =>
      cases item with
      | page p => rfl
      | document d => exact e.indexOf?_eq h hc

/-! ## Paths -/

theorem physicalPath_eq (h : t.WellFormed P) (hu : u.WellFormed P) (e : t.Embeds id f u) {c : Nat}
    (hc : id ∈ t.climb c) : ∃ k p, t.pageOf? c = some k ∧ t.item? k = some (.page p) ∧
      id ∈ t.climb k ∧
      u.physicalPath (f c) = .ok (pathOf (u.entriesTo (f id) ++ (t.entriesFrom id k).tail)) := by
  have hknown := lt_size_of_mem_climb hc
  obtain ⟨k, p, hk, hpage, -⟩ := h.physicalPath_eq hknown
  obtain ⟨item, hi⟩ := exists_item? hknown
  obtain ⟨k', -, hk', -, -, hpath⟩ :=
    hu.physicalPath_eq (lt_size_of_item? ((e.item?_eq c hc).trans hi))
  have hbelow := h.mem_climb_of_pageOf? hk hc
  rw [e.pageOf?_eq h hc, hk] at hk'
  cases hk'
  exact ⟨k, p, hk, hpage, hbelow, by rw [hpath, e.entriesTo_eq h hu hbelow]⟩

/-- Two nodes below a node have the same relative path wherever they are found. -/
theorem sameRelative (h : t.WellFormed P) (hu : u.WellFormed P) (hv : v.WellFormed P)
    (e : t.Embeds id f u) (e' : t.Embeds id g v) {a b : Nat} (ha : id ∈ t.climb a)
    (hb : id ∈ t.climb b) : SameRelative u (f a) (f b) v (g a) (g b) := by
  obtain ⟨ka, pa, hka, hpa, habelow, hsource⟩ := e.physicalPath_eq h hu ha
  obtain ⟨kb, pb, hkb, hpb, hbbelow, htarget⟩ := e.physicalPath_eq h hu hb
  obtain ⟨ka', -, hka', -, -, hsource'⟩ := e'.physicalPath_eq h hv ha
  obtain ⟨kb', -, hkb', -, -, htarget'⟩ := e'.physicalPath_eq h hv hb
  cases hka.symm.trans hka'
  cases hkb.symm.trans hkb'
  refine ⟨_, _, _, _, hsource, htarget, hsource', htarget', ?_⟩
  obtain ⟨item, hi⟩ := exists_item? (h.known_of_mem_climb (lt_size_of_mem_climb ha) id ha)
  cases item with
  | page p =>
      -- Nothing is below a page but the page.
      cases h.eq_of_mem_climb_page hi habelow
      cases h.eq_of_mem_climb_page hi hbbelow
      rw [relativePath, if_pos rfl, relativePath, if_pos rfl]
  | document d =>
      have hself := h.mem_climb_self (lt_size_of_item? hi)
      have hfront : u.entriesTo (f id) ≠ [] :=
        hu.keysTo_ne_nil _ (lt_size_of_item? ((e.item?_eq id hself).trans hi))
      have hfront' : v.entriesTo (g id) ≠ [] :=
        hv.keysTo_ne_nil _ (lt_size_of_item? ((e'.item?_eq id hself).trans hi))
      have hresta := h.tail_entriesFrom_ne_nil hi hpa habelow
      have hrestb := h.tail_entriesFrom_ne_nil hi hpb hbbelow
      rw [relativePath_pathOf_append hfront hresta hrestb,
        relativePath_pathOf_append hfront' hresta hrestb]

end Embeds

end Tree

end PageLoom
