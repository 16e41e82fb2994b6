import PageLoom.Proofs.Disk.Descent
import PageLoom.Proofs.Outcomes
import PageLoom.Proofs.Site.Content
import PageLoom.Proofs.Tree.Copy

/-!
# What is collected

`Collects` relates the entries of a folder to nodes of a tree: each visible `md` file to a page,
each visible folder to a document, unless there are no pages in it, and all other visible files,
with the companions of pages left out, to the places of the files to be copied.  It looks at
nothing of the tree but items and children, so it stays true as long as the tree only grows
(`Collects.mono`).

Collecting the entries of a folder makes it true (`collects_collectEntries`).  The nodes that
collecting adds then belong to documents that it adds, except for those that it tells (`Adds`).
-/

namespace PageLoom

/-! ## Pages -/

/-- The context that a file holds. -/
def HoldsContext (bytes : ByteArray) (own : Context) : Prop :=
  ∃ text json, textOf bytes = .ok text ∧ Json.read? text = some json ∧
    Context.ofJson? json = .ok own

/-- The context of the site or, key by key, what the file next to a page holds before that. -/
def IsContextOf (site : Context) (companion : Option ByteArray) (context : Context) : Prop :=
  match companion with
  | none => context = site
  | some bytes => ∃ own, HoldsContext bytes own ∧
      ∀ key, context.get? key = (own.get? key).or (site.get? key)

/-- A page of the file with a stem in a folder. -/
structure IsPageOf (site : Context) (siblings : List (String × Entry)) (stem : String)
    (bytes : ByteArray) (p : Page) : Prop where
  name : p.name = stem
  template : textOf bytes = .ok p.template
  context : IsContextOf site (fileNamed? (stem ++ ".json") siblings) p.context

theorem holdsContext_of_contextOf {p : Path} {bytes : ByteArray} {own : Context}
    (h : contextOf p (textOf bytes) = .ok own) : HoldsContext bytes own := by
  unfold contextOf at h
  split at h
  next => cases h
  next text htext =>
    split at h
    next => cases h
    next json hjson => exact ⟨text, json, htext, hjson, mapError_eq_ok_iff.mp h⟩

/-- The context of a page is that of the site, with the entries of its own file over it. -/
theorem isContextOf_pageContext {site context : Context} {dir : Path} {stem : String}
    {siblings : List (String × Entry)} (h : pageContext site dir stem siblings = .ok context) :
    IsContextOf site (fileNamed? (stem ++ ".json") siblings) context := by
  rw [pageContext] at h
  split at h
  next hnone =>
    cases h
    rw [hnone]
    rfl
  next bytes hsome =>
    rw [hsome]
    cases hown : contextOf (dir.join (stem ++ ".json")) (textOf bytes) with
    | error e => rw [hown] at h; cases h
    | ok own =>
        rw [hown] at h
        cases h
        exact ⟨own, holdsContext_of_contextOf hown, site.get?_union own⟩

theorem isPageOf_pageOfFile {site : Context} {dir : Path} {siblings : List (String × Entry)}
    {name : String} {bytes : ByteArray} {p : Page}
    (h : pageOfFile site dir siblings name bytes = .ok p) :
    IsPageOf site siblings (stemOf name) bytes p := by
  obtain ⟨template, htemplate, h⟩ := bind_eq_ok_iff.mp h
  obtain ⟨context, hcontext, h⟩ := bind_eq_ok_iff.mp h
  obtain ⟨q, hq, h⟩ := bind_eq_ok_iff.mp h
  cases h
  rw [mapError_eq_ok_iff] at htemplate hcontext hq
  rw [Page.ofName?] at hq
  split at hq
  next =>
    cases hq
    exact ⟨rfl, htemplate, isContextOf_pageContext hcontext⟩
  next => cases hq

/-! ## Nodes that are added -/

namespace Tree

variable {t u : Tree}

/-- The ids of all pages. -/
def pageIds (t : Tree) : List Nat :=
  (List.range t.size).filter fun c => ((t.item? c).bind Item.page?).isSome

/-- Adopting children adds a page only if the item is one. -/
theorem pageIds_adopt (t : Tree) (item : Item) (children : List Nat) :
    (t.adopt item children).pageIds =
      t.pageIds ++ if item.page?.isSome then [t.size] else [] := by
  have hold : ∀ c ∈ List.range t.size, (((t.adopt item children).item? c).bind Item.page?).isSome =
      ((t.item? c).bind Item.page?).isSome := fun c hc => by
    rw [item?_adopt, if_neg (Nat.ne_of_lt (List.mem_range.mp hc))]
  rw [pageIds, size_adopt, List.range_succ, List.filter_append, List.filter_congr hold, ← pageIds,
    List.filter_singleton, item?_adopt, if_pos rfl]
  cases item <;> rfl

end Tree

/-- What collecting adds: the nodes `ids`, and nodes that belong to others that it adds. -/
structure Adds (c : Collected) (ids : List Nat) (c' : Collected) : Prop where
  wellFormed : c'.tree.WellFormed fun _ => True
  kept : c.tree.Extends c'.tree
  mem_ids : ∀ k, k ∈ ids ↔ c.tree.size ≤ k ∧ k < c'.tree.size ∧ c'.tree.parent? k = none
  pages : c'.pages + c.tree.pageIds.length = c.pages + c'.tree.pageIds.length

namespace Adds

variable {c c₁ c₂ : Collected} {ids ids' : List Nat}

theorem refl (h : c.tree.WellFormed fun _ => True) : Adds c [] c where
  wellFormed := h
  kept := .refl _
  mem_ids k := by
    simp only [List.not_mem_nil, false_iff, not_and]
    omega
  pages := rfl

/-- What is added by one step and by the next is added by both together, in that order. -/
theorem trans (h : Adds c ids c₁) (h' : Adds c₁ ids' c₂) : Adds c (ids ++ ids') c₂ where
  wellFormed := h'.wellFormed
  kept := h.kept.trans h'.kept
  mem_ids k := by
    have hsize := h.kept.1
    have hsize' := h'.kept.1
    rw [List.mem_append, h.mem_ids, h'.mem_ids]
    by_cases hk : k < c₁.tree.size
    · rw [h'.kept.parent? hk]
      constructor
      · rintro (⟨hle, -, hp⟩ | ⟨hle, -⟩)
        · exact ⟨hle, by omega, hp⟩
        · omega
      · rintro ⟨hle, -, hp⟩
        exact .inl ⟨hle, hk, hp⟩
    · constructor
      · rintro (⟨-, hlt, -⟩ | ⟨-, hlt, hp⟩)
        · exact absurd hlt hk
        · exact ⟨by omega, hlt, hp⟩
      · rintro ⟨-, hlt, hp⟩
        exact .inr ⟨by omega, hlt, hp⟩
  pages := by
    have := h.pages
    have := h'.pages
    omega

theorem parent?_size (t : Tree) : t.parent? t.size = none := by
  rw [Tree.parent?, Tree.get?_eq_none_iff.mpr (Nat.le_refl _)]
  rfl

theorem addPage (h : c.tree.WellFormed fun _ => True) (p : Page) :
    Adds c [c.tree.size] (c.addPage p) where
  wellFormed := h.addPage trivial
  kept := (Tree.Extends.refl _).adopt _ (by simp)
  mem_ids k := by
    rw [Collected.addPage, Tree.addPage, Tree.size_adopt,
      Tree.parent?_adopt _ (List.forall_mem_nil _), if_neg List.not_mem_nil, List.mem_singleton]
    constructor
    · rintro rfl
      exact ⟨Nat.le_refl _, Nat.lt_succ_self _, parent?_size _⟩
    · rintro ⟨hle, hlt, -⟩
      omega
  pages := by
    rw [Collected.addPage, Tree.addPage, Tree.pageIds_adopt, List.length_append]
    show c.pages + 1 + c.tree.pageIds.length = c.pages + (c.tree.pageIds.length + 1)
    omega

/-- The document above nodes that have been added. -/
theorem addDocument (h : Adds c ids c₁) {d : Document} {t : Tree}
    (hd : c₁.tree.addDocument d ids = .ok t) :
    Adds c [c₁.tree.size] { c₁ with tree := t } where
  wellFormed := h.wellFormed.addDocument hd trivial
  kept := by
    obtain ⟨-, -, rfl⟩ := Tree.of_addDocument_eq_ok hd
    exact h.kept.adopt _ fun k hk => ((h.mem_ids k).mp hk).1
  mem_ids k := by
    obtain ⟨-, -, rfl⟩ := Tree.of_addDocument_eq_ok hd
    have hsize := h.kept.1
    rw [Tree.size_adopt, Tree.parent?_adopt _ fun k hk => ((h.mem_ids k).mp hk).2.1,
      List.mem_singleton]
    constructor
    · rintro rfl
      rw [if_neg fun hm => Nat.lt_irrefl _ ((h.mem_ids _).mp hm).2.1]
      exact ⟨hsize, Nat.lt_succ_self _, parent?_size _⟩
    · rintro ⟨hle, hlt, hp⟩
      split at hp
      next => cases hp
      next hnew =>
        by_contra hne
        exact hnew ((h.mem_ids k).mpr ⟨hle, by omega, hp⟩)
  pages := by
    obtain ⟨-, -, rfl⟩ := Tree.of_addDocument_eq_ok hd
    rw [Tree.pageIds_adopt, List.length_append]
    exact h.pages

end Adds

/-! ## What becomes of entries -/

/-- What becomes of a folder with the nodes `below` in it: a document, or nothing without them. -/
def IsFolderOf (t : Tree) (name : String) (below : List Nat) : Option Nat → Prop
  | none => below = []
  | some id => (∃ d, t.item? id = some (.document d) ∧ d.name = name) ∧ t.childrenOf id = below

/-- A place below a folder of the given name. -/
def belowFolder (name : String) (place : List String × String) : List String × String :=
  (name :: place.1, place.2)

mutual
/-- What becomes of an entry of a folder: nodes, and places of files to be copied.  `siblings` are
all entries of the folder. -/
inductive Becomes (t : Tree) (site : Context) : (siblings : List (String × Entry)) →
    String × Entry → (ids : List Nat) → (places : List (List String × String)) → Prop
  | hidden (siblings : List (String × Entry)) {name : String} (e : Entry)
      (hname : isHidden name = true) : Becomes t site siblings (name, e) [] []
  | page {siblings : List (String × Entry)} {name : String} {bytes : ByteArray} {id : Nat}
      {p : Page} (hname : isHidden name = false) (hext : extensionOf name = some "md")
      (hitem : t.item? id = some (.page p))
      (hpage : IsPageOf site siblings (stemOf name) bytes p) :
      Becomes t site siblings (name, .file bytes) [id] []
  | companion {siblings : List (String × Entry)} {name : String} (bytes : ByteArray)
      (hname : isHidden name = false) (hext : extensionOf name ≠ some "md")
      (hcompanion : isCompanion siblings name = true) :
      Becomes t site siblings (name, .file bytes) [] []
  | copy {siblings : List (String × Entry)} {name : String} (bytes : ByteArray)
      (hname : isHidden name = false) (hext : extensionOf name ≠ some "md")
      (hcompanion : isCompanion siblings name = false) :
      Becomes t site siblings (name, .file bytes) [] [([], name)]
  | folder (siblings : List (String × Entry)) {inside : List (String × Entry)} {below : List Nat}
      {places : List (List String × String)} {name : String} {id : Option Nat}
      (hname : isHidden name = false) (hinside : Collects t site inside inside below places)
      (hid : IsFolderOf t name below id) :
      Becomes t site siblings (name, .folder inside) id.toList (places.map (belowFolder name))

/-- What becomes of entries of a folder. -/
inductive Collects (t : Tree) (site : Context) : (siblings entries : List (String × Entry)) →
    (ids : List Nat) → (places : List (List String × String)) → Prop
  | nil (siblings : List (String × Entry)) : Collects t site siblings [] [] []
  | cons {siblings rest : List (String × Entry)} {x : String × Entry} {ids more : List Nat}
      {places others : List (List String × String)} (hfirst : Becomes t site siblings x ids places)
      (hrest : Collects t site siblings rest more others) :
      Collects t site siblings (x :: rest) (ids ++ more) (places ++ others)
end

/-- A folder that was taken into the tree stays there as the tree grows. -/
theorem IsFolderOf.mono {t u : Tree} (h : t.Keeps u) {name : String} {below : List Nat}
    {id : Option Nat} (hid : IsFolderOf t name below id) : IsFolderOf u name below id := by
  cases id with
  | none => exact hid
  | some id =>
      obtain ⟨⟨d, hd, hname⟩, hbelow⟩ := hid
      obtain ⟨hitem, hchildren⟩ := h id (Tree.lt_size_of_item? hd)
      exact ⟨⟨d, hitem.trans hd, hname⟩, hchildren.trans hbelow⟩

/-- What became of entries stays as it is when a tree grows. -/
theorem Collects.mono {t u : Tree} (h : t.Keeps u) {site : Context}
    {entries : List (String × Entry)} : ∀ {siblings : List (String × Entry)} {ids : List Nat}
      {places : List (List String × String)}, Collects t site siblings entries ids places →
      Collects u site siblings entries ids places := by
  induction entries using entries_induction with
  | nil =>
      rintro siblings ids places ⟨⟩
      exact .nil siblings
  | file name bytes rest ih =>
      rintro siblings ids places (_ | ⟨hfirst, hrest⟩)
      refine .cons ?_ (ih hrest)
      cases hfirst with
      | hidden _ _ hname => exact .hidden siblings _ hname
      | page hname hext hitem hpage =>
          exact .page hname hext ((h _ (Tree.lt_size_of_item? hitem)).1.trans hitem) hpage
      | companion _ hname hext hcompanion => exact .companion bytes hname hext hcompanion
      | copy _ hname hext hcompanion => exact .copy bytes hname hext hcompanion
  | folder name inside rest ihInside ih =>
      rintro siblings ids places (_ | ⟨hfirst, hrest⟩)
      refine .cons ?_ (ih hrest)
      cases hfirst with
      | hidden _ _ hname => exact .hidden siblings _ hname
      | folder _ hname hinside hid => exact .folder siblings hname (ihInside hinside) (hid.mono h)

/-! ## Collecting -/

/-- The source and the target of a copy of the file at a place. -/
def copyOf (dir out : Path) (place : List String × String) : Path × Path :=
  (dir.joinAll (place.1 ++ [place.2]), out.joinAll (place.1.map diskName ++ [place.2]))

/-- A folder becomes a document of the nodes that are in it, unless there are none. -/
theorem adds_addDocument {c c₁ c₂ : Collected} {below : List Nat} {d : Document} {dir : Path}
    {id : Option Nat} (h : Adds c below c₁)
    (hd : c₁.addDocument d dir below = .ok (c₂, id)) :
    Adds c id.toList c₂ ∧ IsFolderOf c₂.tree d.name below id ∧ c₁.tree.Keeps c₂.tree ∧
      c₂.copies = c₁.copies := by
  rw [Collected.addDocument] at hd
  split at hd
  next hnil =>
    cases hd
    rw [List.isEmpty_iff] at hnil
    subst hnil
    exact ⟨h, rfl, fun _ _ => ⟨rfl, rfl⟩, rfl⟩
  next =>
    split at hd
    next t ht =>
      cases hd
      obtain ⟨-, -, rfl⟩ := Tree.of_addDocument_eq_ok ht
      refine ⟨h.addDocument ht, ⟨⟨d, ?_, rfl⟩, ?_⟩, Tree.keeps_adopt _ _ _, rfl⟩
      · rw [Tree.item?_adopt, if_pos rfl]
      · rw [Tree.childrenOf_adopt, if_pos rfl]
    next => cases hd

theorem document_ofName?_eq_ok {name : String} {d : Document} (h : Document.ofName? name = .ok d) :
    d.name = name ∧ d.folder = diskName name := by
  rw [Document.ofName?] at h
  split at h
  next =>
    cases h
    exact ⟨rfl, rfl⟩
  next => cases h

/-- Collecting entries adds nodes for them, and tells the files to be copied. -/
theorem collects_collectEntries {site : Context} {entries : List (String × Entry)} :
    ∀ {dir out : Path} {siblings : List (String × Entry)} {c c' : Collected} {ids : List Nat},
      c.tree.WellFormed (fun _ => True) →
      collectEntries site dir out siblings c entries = .ok (c', ids) →
      Adds c ids c' ∧ ∃ places, Collects c'.tree site siblings entries ids places ∧
        c'.copies = c.copies ++ places.map (copyOf dir out) := by
  induction entries using entries_induction with
  | nil =>
      intro dir out siblings c c' ids hc h
      rw [collectEntries] at h
      cases h
      exact ⟨.refl hc, [], .nil siblings, (List.append_nil _).symm⟩
  | file name bytes rest ih =>
      intro dir out siblings c c' ids hc h
      rw [collectEntries] at h
      split at h
      next hname =>
        obtain ⟨hadds, places, hcollects, hcopies⟩ := ih hc h
        exact ⟨hadds, places, .cons (.hidden _ _ hname) hcollects, hcopies⟩
      next hname =>
      rw [Bool.not_eq_true] at hname
      split at h
      next hext =>
        obtain ⟨p, hp, h⟩ := bind_eq_ok_iff.mp h
        obtain ⟨⟨c₁, ids₁⟩, hrest, h⟩ := bind_eq_ok_iff.mp h
        cases h
        have hpage := Adds.addPage hc p
        obtain ⟨hadds, places, hcollects, hcopies⟩ := ih hpage.wellFormed hrest
        have hitem : c'.tree.item? c.tree.size = some (.page p) := by
          rw [hadds.kept.item? (by rw [Collected.addPage, Tree.addPage, Tree.size_adopt]; omega),
            Collected.addPage, Tree.addPage, Tree.item?_adopt, if_pos rfl]
        exact ⟨hpage.trans hadds, places,
          .cons (.page hname (beq_iff_eq.mp hext) hitem (isPageOf_pageOfFile hp)) hcollects,
          hcopies⟩
      next hext =>
      have hext : extensionOf name ≠ some "md" := fun he => hext (beq_iff_eq.mpr he)
      split at h
      next hcompanion =>
        obtain ⟨hadds, places, hcollects, hcopies⟩ := ih hc h
        exact ⟨hadds, places, .cons (.companion bytes hname hext hcompanion) hcollects,
          hcopies⟩
      next hcompanion =>
        rw [Bool.not_eq_true] at hcompanion
        obtain ⟨hadds, places, hcollects, hcopies⟩ := ih (c := c.addCopy _ _) hc h
        refine ⟨⟨hadds.wellFormed, hadds.kept, hadds.mem_ids, hadds.pages⟩, ([], name) :: places,
          .cons (.copy bytes hname hext hcompanion) hcollects, ?_⟩
        rw [hcopies, Collected.addCopy, List.append_assoc]
        rfl
  | folder name inside rest ihInside ih =>
      intro dir out siblings c c' ids hc h
      rw [collectEntries] at h
      split at h
      next hname =>
        obtain ⟨hadds, places, hcollects, hcopies⟩ := ih hc h
        exact ⟨hadds, places, .cons (.hidden _ _ hname) hcollects, hcopies⟩
      next hname =>
        rw [Bool.not_eq_true] at hname
        obtain ⟨d, hd, h⟩ := bind_eq_ok_iff.mp h
        obtain ⟨⟨c₁, below⟩, hinside, h⟩ := bind_eq_ok_iff.mp h
        obtain ⟨⟨c₂, id⟩, hdocument, h⟩ := bind_eq_ok_iff.mp h
        obtain ⟨⟨c₃, ids₁⟩, hrest, h⟩ := bind_eq_ok_iff.mp h
        cases h
        obtain ⟨hdname, hfolder⟩ := document_ofName?_eq_ok (mapError_eq_ok_iff.mp hd)
        obtain ⟨hbelow, placesBelow, hcollectsBelow, hcopiesBelow⟩ := ihInside hc hinside
        obtain ⟨hadds, hid, hkeeps, hcopies⟩ := adds_addDocument hbelow hdocument
        obtain ⟨haddsRest, places, hcollects, hcopiesRest⟩ := ih hadds.wellFormed hrest
        have hlast := haddsRest.kept.keeps
        refine ⟨hadds.trans haddsRest, placesBelow.map (belowFolder name) ++ places,
          .cons (.folder _ hname ((hcollectsBelow.mono hkeeps).mono hlast)
            ((hdname ▸ hid).mono hlast)) hcollects, ?_⟩
        rw [hcopiesRest, hcopies, hcopiesBelow, List.map_append, List.map_map, List.append_assoc,
          hfolder]
        rfl

end PageLoom
