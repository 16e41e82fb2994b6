import PageLoom.Proofs.Tree.Embedding
import PageLoom.Proofs.Tree.Files

/-!
# The order of pages

The pages below a document are rendered in order: those below its index come first, and then
those below its other children, one child after the other (`Tree.pagesInOrder`).  This is the
order in which the steps of a branch make them (`WellFormed.pageIds_steps`), so it has every page
below a node, once (`WellFormed.pagesInOrder_perm`).
-/

namespace PageLoom

namespace Tree

variable {P : Item → Prop} {t : Tree}

/-- The children of a document, its index first. -/
def childrenInOrder (t : Tree) (d : Nat) : List Nat :=
  (t.indexOf? d).toList ++ (t.childrenOf d).filter fun c => t.indexOf? d ≠ some c

/-- The pages below a node, those below the index of a document first.  A child has a smaller id
than its parent. -/
def pagesInOrder (t : Tree) (id : Nat) : List Nat :=
  match t.item? id with
  | none => []
  | some (.page _) => [id]
  | some (.document _) =>
      (t.childrenInOrder id).flatMap fun c => if c < id then t.pagesInOrder c else []
termination_by id

theorem childrenInOrder_eq {d i : Nat} (hindex : t.indexOf? d = some i) :
    t.childrenInOrder d = i :: (t.childrenOf d).filter fun c => c ≠ i := by
  rw [childrenInOrder, hindex]
  refine congrArg (i :: ·) (List.filter_congr fun c _ => decide_eq_decide.mpr ?_)
  rw [ne_eq, ne_eq, Option.some_inj, eq_comm]

theorem pagesInOrder_page {c : Nat} {p : Page} (hc : t.item? c = some (.page p)) :
    t.pagesInOrder c = [c] := by rw [pagesInOrder, hc]

theorem WellFormed.parent?_of_mem_childrenInOrder (h : t.WellFormed P) {c d : Nat}
    {doc : Document} (hd : t.item? d = some (.document doc)) (hc : c ∈ t.childrenInOrder d) :
    t.parent? c = some d := by
  rcases List.mem_append.mp hc with hc | hc
  · obtain ⟨i, -, hindex, hp, -⟩ := h.exists_index hd
    rw [hindex] at hc
    cases List.mem_singleton.mp hc
    exact hp
  · exact (h.mem_childrenOf c d).mp (List.mem_filter.mp hc).1

/-- The pages below a document are those below its children, in order. -/
theorem WellFormed.pagesInOrder_document (h : t.WellFormed P) {d : Nat} {doc : Document}
    (hd : t.item? d = some (.document doc)) :
    t.pagesInOrder d = (t.childrenInOrder d).flatMap t.pagesInOrder := by
  rw [pagesInOrder, hd]
  refine List.flatMap_congr fun c hc => ?_
  rw [if_pos (h.lt_of_parent? c d (h.parent?_of_mem_childrenInOrder hd hc))]

/-! ## Children in order -/

/-- What only one of the elements of a list has is erased by leaving this one out. -/
theorem eraseP_eq_filter {q : Nat → Bool} {i : Nat} {cs : List Nat} (nodup : cs.Nodup)
    (only : ∀ c ∈ cs, q c = true ↔ c = i) : cs.eraseP q = cs.filter fun c => c ≠ i := by
  induction cs with
  | nil => rfl
  | cons c cs ih =>
      rw [List.nodup_cons] at nodup
      rw [List.forall_mem_cons] at only
      by_cases hq : q c = true
      · obtain rfl := only.1.mp hq
        rw [List.eraseP_cons_of_pos hq, List.filter_cons_of_neg (by simp)]
        refine (List.filter_eq_self.mpr fun b hb => ?_).symm
        exact decide_eq_true fun he => nodup.1 (he ▸ hb)
      · have hne : c ≠ i := fun he => hq (only.1.mpr he)
        rw [List.eraseP_cons_of_neg hq, List.filter_cons_of_pos (by simpa using hne),
          ih nodup.2 only.2]

/-- The index of a document comes first, and the other children as they are. -/
theorem WellFormed.indexFirst_eq (h : t.WellFormed P) {α : Type} {d : Nat} {doc : Document}
    (hd : t.item? d = some (.document doc)) (f : Nat → α) :
    indexFirst ((t.childrenOf d).map fun c => ((t.item? c).any Item.isIndex, f c)) =
      (t.childrenInOrder d).map f := by
  obtain ⟨i, p, hindex, hp, hi, hidx, honly⟩ := h.exists_index hd
  have only : ∀ c ∈ t.childrenOf d, (t.item? c).any Item.isIndex = true ↔ c = i := by
    intro c hc
    have hparent := (h.mem_childrenOf c d).mp hc
    obtain ⟨item, hitem⟩ := exists_item? (lt_size_of_parent? hparent)
    constructor
    · intro hany
      rw [hitem, Option.any_some] at hany
      exact honly c item hparent hitem hany
    · rintro rfl
      rw [hi, Option.any_some]
      exact hidx
  have hfind := indexOf?_eq_find? t d
  have hrest := eraseP_eq_filter (h.nodup_childrenOf d) only
  rw [hindex] at hfind
  have hpart : ((fun part : Bool × α => part.1) ∘
      fun c => ((t.item? c).any Item.isIndex, f c)) = fun c => (t.item? c).any Item.isIndex := rfl
  rw [indexFirst, List.find?_map, List.eraseP_map, hpart, ← hfind, hrest,
    childrenInOrder_eq hindex, List.map_append, List.map_map]
  rfl

/-! ## The steps of a branch -/

/-- What is made of a node in a folder. -/
def stepsOf (t : Tree) (dir : Path) (c : Nat) : List Step :=
  ((t.branch? c).map (Branch.steps dir)).getD []

theorem WellFormed.parts_eq_map (h : t.WellFormed P) (dir : Path) {cs : List Nat}
    (known : ∀ c ∈ cs, c < t.size) : Branch.parts dir (cs.filterMap t.branch?) =
      cs.map fun c => ((t.item? c).any Item.isIndex, t.stepsOf dir c) := by
  induction cs with
  | nil => rfl
  | cons c cs ih =>
      rw [List.forall_mem_cons] at known
      obtain ⟨b, hb, -, hi⟩ := h.exists_branch? known.1
      rw [List.filterMap_cons, hb, List.map_cons, ← ih known.2, parts_eq, parts_eq, hi, stepsOf, hb]
      rfl

/-- The steps for the children of a document make the pages below it in order. -/
theorem WellFormed.pageIds_stepsBelow (h : t.WellFormed P) {d : Nat} {doc : Document}
    (hd : t.item? d = some (.document doc)) (dir : Path)
    (ih : ∀ k b, t.parent? k = some d → t.branch? k = some b →
      (b.steps dir).filterMap Step.pageId? = t.pagesInOrder k) :
    (stepsBelow dir ((t.childrenOf d).filterMap t.branch?)).filterMap Step.pageId? =
      t.pagesInOrder d := by
  rw [stepsBelow, h.parts_eq_map dir fun c hc => h.known_of_mem_childrenOf hc,
    h.indexFirst_eq hd, ← List.flatMap_def, List.filterMap_flatMap, h.pagesInOrder_document hd]
  refine List.flatMap_congr fun c hc => ?_
  have hp := h.parent?_of_mem_childrenInOrder hd hc
  obtain ⟨b, hb, -⟩ := h.exists_branch? (lt_size_of_parent? hp)
  rw [stepsOf, hb]
  exact ih c b hp hb

/-- The steps of a branch make the pages below it in order.  The induction is on the id: children
have smaller ones. -/
theorem WellFormed.pageIds_steps (h : t.WellFormed P) : ∀ id b, t.branch? id = some b →
    ∀ dir : Path, (b.steps dir).filterMap Step.pageId? = t.pagesInOrder id := by
  intro id
  induction id using Nat.strongRecOn with
  | ind id ih =>
      intro b hb dir
      obtain ⟨item, hi⟩ : ∃ item, t.item? id = some item := by
        refine exists_item? (Nat.lt_of_not_le fun hle => ?_)
        rw [branch?, get?_eq_none_iff.mpr hle] at hb
        cases hb
      cases item with
      | page p =>
          obtain ⟨b', hb', hsteps⟩ := h.branch_of_page hi
          cases hb'.symm.trans hb
          rw [hsteps, pagesInOrder_page hi]
          rfl
      | document doc =>
          cases (h.branch?_of_document hi).symm.trans hb
          rw [Branch.steps]
          exact h.pageIds_stepsBelow hi (dir.join doc.folder) fun k b hp hkb =>
            ih k (h.lt_of_parent? k id hp) b hkb (dir.join doc.folder)

/-- The order has every page below a node, once. -/
theorem WellFormed.pagesInOrder_perm (h : t.WellFormed P) {id : Nat} (hid : id < t.size) :
    (t.pagesInOrder id).Perm (t.pagesBelow id) := by
  obtain ⟨b, hb, -⟩ := h.exists_branch? hid
  rw [← h.pageIds_steps id b hb ⟨""⟩]
  exact (h.makesPages_steps id b hb ⟨""⟩).perm

end Tree

end PageLoom
