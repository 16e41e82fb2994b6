import PageLoom.Proofs.Disk.Descent
import PageLoom.Proofs.Tree.Below
import PageLoom.Proofs.Tree.Copy
import PageLoom.Proofs.Tree.Taking
import Mathlib.Data.List.Perm.Basic

/-!
# The files of a rendered tree

The way down to a page and the folders that the steps of a branch go through are found in
opposite directions.  They agree: the steps of a branch make every page below it once, at
the entries on the way down (`makesPages_steps`).

So rendering a root makes a file for every page of its tree, at the entries down to it
(`WellFormed.hasFile_of_render`), and rendering what is below a document does so without the
folder of the document (`WellFormed.hasFile_of_renderInto`).
-/

namespace PageLoom

/-! ## The steps of a branch -/

/-- Putting the index first leaves nothing out. -/
theorem indexFirst_perm {α : Type} (parts : List (Bool × α)) :
    (indexFirst parts).Perm (parts.map (·.2)) := by
  refine List.Perm.map _ ?_
  induction parts with
  | nil => exact .nil
  | cons part parts ih =>
      by_cases hp : part.1 = true
      · rw [List.find?_cons_of_pos hp, List.eraseP_cons_of_pos hp]
        exact .refl _
      · rw [List.find?_cons_of_neg hp, List.eraseP_cons_of_neg hp]
        exact List.perm_middle.trans (ih.cons part)

theorem parts_eq (dir : Path) (bs : List Branch) :
    Branch.parts dir bs = bs.map fun b => (b.item.isIndex, b.steps dir) := by
  induction bs with
  | nil => rfl
  | cons b bs ih =>
      obtain ⟨id, item, children⟩ := b
      rw [Branch.parts, ih, List.map_cons]
      rfl

/-- What is made of the branches below a document, its index first. -/
abbrev stepsBelow (dir : Path) (bs : List Branch) : List Step :=
  (indexFirst (Branch.parts dir bs)).flatten

/-- What is made of the branches below a document is what is made of each of them. -/
theorem stepsBelow_perm (dir : Path) (bs : List Branch) :
    (stepsBelow dir bs).Perm (bs.flatMap (Branch.steps dir)) := by
  have hperm := (indexFirst_perm (Branch.parts dir bs)).flatten
  rwa [parts_eq, List.map_map, ← List.flatMap_def, ← parts_eq] at hperm

namespace Tree

variable {P : Item → Prop} {t : Tree} {o : RenderOptions} {fresh : Fresh}

/-- Steps that make every page below a node once, each at its path. -/
structure MakesPages (t : Tree) (id : Nat) (path : Nat → Path) (steps : List Step) : Prop where
  mem_iff : ∀ place c p, .page place c p ∈ steps ↔
    id ∈ t.climb c ∧ t.item? c = some (.page p) ∧ place = path c
  nodup : (steps.filterMap Step.pageId?).Nodup

theorem MakesPages.perm {id : Nat} {path : Nat → Path} {steps : List Step}
    (h : t.MakesPages id path steps) : (steps.filterMap Step.pageId?).Perm (t.pagesBelow id) := by
  refine (List.perm_ext_iff_of_nodup h.nodup (t.nodup_pagesBelow id)).mpr fun c => ?_
  rw [List.mem_filterMap, mem_pagesBelow]
  constructor
  · rintro ⟨s, hs, hc⟩
    cases s with
    | folder place => cases hc
    | page place c p =>
        cases hc
        obtain ⟨hbelow, hpage, -⟩ := (h.mem_iff place _ p).mp hs
        exact ⟨hbelow, p, hpage⟩
  · rintro ⟨hbelow, p, hpage⟩
    exact ⟨.page (path c) c p, (h.mem_iff _ c p).mpr ⟨hbelow, hpage, rfl⟩, rfl⟩

theorem WellFormed.branch?_of_document (h : t.WellFormed P) {d : Nat} {doc : Document}
    (hd : t.item? d = some (.document doc)) :
    t.branch? d = some ⟨d, .document doc, (t.childrenOf d).filterMap t.branch?⟩ := by
  obtain ⟨n, hn, hitem⟩ := Option.map_eq_some_iff.mp hd
  rw [h.branch?_eq_some hn, hitem, childrenOf_of_get? hn]

/-- The branch of a page makes the page. -/
theorem WellFormed.branch_of_page (h : t.WellFormed P) {c : Nat} {p : Page}
    (hc : t.item? c = some (.page p)) :
    ∃ b, t.branch? c = some b ∧ ∀ dir, b.steps dir = [.page (dir.join p.file) c p] := by
  obtain ⟨n, hn, hitem⟩ := Option.map_eq_some_iff.mp hc
  exact ⟨_, h.branch?_eq_some hn, fun dir => by rw [hitem, Branch.steps]⟩

/-- A page is all that is made of it. -/
theorem WellFormed.makesPages_page (h : t.WellFormed P) {id : Nat} {q : Page}
    (hi : t.item? id = some (.page q)) (dir : Path) :
    t.MakesPages id (fun c => dir.joinAll (t.entriesFrom id c)) [.page (dir.join q.file) id q] := by
  refine ⟨fun place c p => ?_, List.nodup_singleton _⟩
  rw [List.mem_singleton, Step.page.injEq]
  constructor
  · rintro ⟨rfl, rfl, rfl⟩
    refine ⟨?_, hi, ?_⟩
    · rw [h.climb_eq (lt_size_of_item? hi)]
      exact .head _
    · rw [h.entriesFrom_self hi]
      rfl
  · rintro ⟨hbelow, hpage, hplace⟩
    cases h.eq_of_mem_climb_page hi hbelow
    cases hi.symm.trans hpage
    rw [h.entriesFrom_self hi] at hplace
    exact ⟨hplace, rfl, rfl⟩

/-- What is made of the children of a document are the pages below it. -/
theorem WellFormed.makesPages_stepsBelow (h : t.WellFormed P) {d : Nat} {doc : Document}
    (hd : t.item? d = some (.document doc)) (dir : Path)
    (ih : ∀ k b, t.parent? k = some d → t.branch? k = some b →
      t.MakesPages k (fun c => dir.joinAll (t.entriesFrom k c)) (b.steps dir)) :
    t.MakesPages d (fun c => dir.joinAll (t.entriesFrom d c).tail)
      (stepsBelow dir ((t.childrenOf d).filterMap t.branch?)) := by
  have hperm := stepsBelow_perm dir ((t.childrenOf d).filterMap t.branch?)
  constructor
  case mem_iff =>
    intro place c p
    rw [hperm.mem_iff, List.mem_flatMap]
    constructor
    · rintro ⟨b, hb, hs⟩
      obtain ⟨k, hk, hkb⟩ := List.mem_filterMap.mp hb
      have hp := (h.mem_childrenOf k d).mp hk
      obtain ⟨hbelow, hpage, hplace⟩ := ((ih k b hp hkb).mem_iff place c p).mp hs
      refine ⟨h.mem_climb_of_parent? hp hbelow, hpage, ?_⟩
      rw [h.entriesFrom_of_parent? hd hp hbelow]
      exact hplace
    · rintro ⟨hbelow, hpage, hplace⟩
      obtain ⟨k, hp, hk⟩ := h.exists_child_of_page hd hpage hbelow
      obtain ⟨b, hb, -⟩ := h.exists_branch? (lt_size_of_parent? hp)
      refine ⟨b, List.mem_filterMap.mpr ⟨k, (h.mem_childrenOf k d).mpr hp, hb⟩,
        ((ih k b hp hb).mem_iff place c p).mpr ⟨hk, hpage, ?_⟩⟩
      rw [hplace, h.entriesFrom_of_parent? hd hp hk]
      rfl
  case nodup =>
    rw [(hperm.filterMap Step.pageId?).nodup_iff, List.filterMap_flatMap, List.nodup_flatMap]
    constructor
    · intro b hb
      obtain ⟨k, hk, hkb⟩ := List.mem_filterMap.mp hb
      exact (ih k b ((h.mem_childrenOf k d).mp hk) hkb).nodup
    · -- No page is below two children.
      refine List.pairwise_filterMap.mpr ((h.nodup_childrenOf d).imp_of_mem ?_)
      intro k l hk hl hne b hb b' hb' c hc hc'
      have hp := (h.mem_childrenOf k d).mp hk
      have hq := (h.mem_childrenOf l d).mp hl
      have hck := mem_pagesBelow.mp ((ih k b hp hb).perm.mem_iff.mp hc)
      have hcl := mem_pagesBelow.mp ((ih l b' hq hb').perm.mem_iff.mp hc')
      exact hne (h.eq_of_mem_climb hp hq hck.1 hcl.1)

/-- The steps of a branch make every page below it once.  The induction is on the id:
children have smaller ones. -/
theorem WellFormed.makesPages_steps (h : t.WellFormed P) :
    ∀ id b, t.branch? id = some b → ∀ dir : Path,
      t.MakesPages id (fun c => dir.joinAll (t.entriesFrom id c)) (b.steps dir) := by
  intro id
  induction id using Nat.strongRecOn with
  | ind id ih =>
      intro b hb dir
      obtain ⟨item, hi⟩ : ∃ item, t.item? id = some item := by
        refine exists_item? (Nat.lt_of_not_le fun hle => ?_)
        rw [branch?, get?_eq_none_iff.mpr hle] at hb
        cases hb
      cases item with
      | page q =>
          obtain ⟨b', hb', hsteps⟩ := h.branch_of_page hi
          cases hb'.symm.trans hb
          rw [hsteps]
          exact h.makesPages_page hi dir
      | document doc =>
          cases (h.branch?_of_document hi).symm.trans hb
          have hbelow := h.makesPages_stepsBelow hi (dir.join doc.folder) fun k b hp hkb =>
            ih k (h.lt_of_parent? k id hp) b hkb (dir.join doc.folder)
          rw [Branch.steps]
          constructor
          case mem_iff =>
            intro place c p
            rw [List.mem_cons, hbelow.mem_iff, entriesFrom_eq_cons hi]
            exact ⟨fun hm => hm.resolve_left (by rintro ⟨⟩), .inr⟩
          case nodup => exact hbelow.nodup

/-- The entries down to a node are names of files and folders. -/
theorem WellFormed.isEntryName_entriesTo (h : t.WellFormed P) (id : Nat) :
    ∀ name ∈ t.entriesTo id, IsEntryName name :=
  h.forall_keysTo (fun item _ => item.isEntryName_entry) id

/-! ## Rendering -/

theorem branch_eq_ok {id : Nat} {b : Branch} (hb : t.branch? id = some b) :
    t.branch id = .ok b := by rw [branch, hb]

/-- Rendering a node takes the steps of its branch. -/
theorem render_eq {id : Nat} {b : Branch} (hb : t.branch? id = some b) (dir : Path) (d : Disk) :
    t.render o fresh id dir d = t.takeAll o fresh (b.steps dir) d := by
  rw [render, branch_eq_ok hb]
  rfl

theorem renderInto_eq {id : Nat} {b : Branch} (hb : t.branch? id = some b) (dir : Path)
    (d : Disk) :
    t.renderInto o fresh id dir d = t.takeAll o fresh (stepsBelow dir b.children) d := by
  rw [renderInto, branch_eq_ok hb]
  rfl

/-- Steps that succeed have made the files of all pages. -/
theorem MakesPages.hasFile {id : Nat} {path : Nat → Path} {steps : List Step}
    (h : t.MakesPages id path steps) {d d' : Disk} {n : Nat}
    (hdone : t.takeAll o fresh steps d = (.ok n, d')) {c : Nat} {p : Page}
    (hc : t.item? c = some (.page p)) (hbelow : id ∈ t.climb c) : d'.hasFile (path c) = true := by
  obtain ⟨-, hsteps, -⟩ := of_takeAll_eq_ok hdone
  exact (hsteps _ ((h.mem_iff (path c) c p).mpr ⟨hbelow, hc, rfl⟩)).2.1

/-- Rendering what is below a root makes a file for every page there. -/
theorem WellFormed.hasFile_of_renderInto (h : t.WellFormed P) {r c : Nat} {root : Document}
    {p : Page} (hr : t.item? r = some (.document root)) (hc : t.item? c = some (.page p))
    (hroot : t.rootOf c = .ok r) {dir : Path} {d d' : Disk} {n : Nat}
    (hdone : t.renderInto o fresh r dir d = (.ok n, d')) :
    d'.hasFile (dir.join (pathOf (t.entriesTo c).tail)) = true := by
  have hbelow := List.mem_of_getLast? (getLast?_climb hroot)
  have hentries := h.entriesFrom_of_root (h.root_of_rootOf hroot).2 hbelow
  rw [renderInto_eq (h.branch?_of_document hr)] at hdone
  have hfile := (h.makesPages_stepsBelow hr dir fun k b _ hkb =>
    h.makesPages_steps k b hkb dir).hasFile hdone hc hbelow
  rw [← hentries, ← Path.joinAll_eq (h.tail_entriesFrom_ne_nil hr hc hbelow)]
  · exact hfile
  · rw [hentries]
    exact fun name hn => h.isEntryName_entriesTo c name (List.mem_of_mem_tail hn)

/-- Rendering a root makes a file for every page of its tree. -/
theorem WellFormed.hasFile_of_render (h : t.WellFormed P) {r c : Nat} {p : Page}
    (hc : t.item? c = some (.page p)) (hroot : t.rootOf c = .ok r) {base : Path} {d d' : Disk}
    {n : Nat} (hdone : t.render o fresh r base d = (.ok n, d')) :
    d'.hasFile (base.join (pathOf (t.entriesTo c))) = true := by
  have hbelow := List.mem_of_getLast? (getLast?_climb hroot)
  obtain ⟨hrk, hrp⟩ := h.root_of_rootOf hroot
  obtain ⟨b, hb, -⟩ := h.exists_branch? hrk
  rw [render_eq hb] at hdone
  have hfile := (h.makesPages_steps r b hb base).hasFile hdone hc hbelow
  rwa [h.entriesFrom_of_root hrp hbelow, Path.joinAll_eq (h.keysTo_ne_nil _ (lt_size_of_item? hc))
    (h.isEntryName_entriesTo c)] at hfile

end Tree

end PageLoom
