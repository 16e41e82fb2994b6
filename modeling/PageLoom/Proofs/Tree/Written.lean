import PageLoom.Proofs.Tree.Failing
import PageLoom.Proofs.Tree.Files
import PageLoom.Proofs.Tree.History

/-!
# One file for every page

Rendering a node writes one file for every page below it and changes no other file.  The
file of a page is at the entries on the way down from the node, in the folder that the node
is rendered into, and different pages have different files (`Tree.Written`).  Rendering again
leaves files at the same places.

All of this holds for the rendering of every node of every tree that is made of pages and
documents as they are constructed, if no page fails and the disk refuses nothing
(`Tree.oneFilePerPage_make`).
-/

namespace PageLoom

namespace Tree

variable {P : Item → Prop} {t : Tree} {o : RenderOptions} {fresh : Fresh}

/-! ## Files of pages -/

/-- Every page below a node renders. -/
def PagesRender (t : Tree) (o : RenderOptions) (fresh : Fresh) (id : Nat) : Prop :=
  ∀ c p, c ∈ t.pagesBelow id → t.item? c = some (.page p) →
    ∃ f, (t.pageNode o c p).render (fresh.below c) = .ok f

instance (t : Tree) (o : RenderOptions) (fresh : Fresh) (id : Nat) :
    Decidable (t.PagesRender o fresh id) :=
  decidable_of_iff (∀ c ∈ t.pagesBelow id, ∀ p ∈ (t.item? c).bind Item.page?,
      ((t.pageNode o c p).render (fresh.below c)).isOk = true) <| by
    refine ⟨fun h c p hc hp => ?_, fun h c hc p hp => ?_⟩
    · have hok := h c hc p (by rw [hp]; rfl)
      cases hf : (t.pageNode o c p).render (fresh.below c) with
      | ok f => exact ⟨f, rfl⟩
      | error es => rw [hf] at hok; cases hok
    · obtain ⟨item, hi, hpage⟩ := Option.bind_eq_some_iff.mp hp
      cases item with
      | document d => cases hpage
      | page q =>
          cases hpage
          obtain ⟨f, hf⟩ := h c _ hc hi
          rw [hf]
          rfl

/-- The disk has not refused to make a folder or to write a file. -/
def NotRefused (r : Except RenderError Nat) : Prop :=
  ∀ path q e, r ≠ .error (.output path (.disk q e))

instance : (r : Except RenderError Nat) → Decidable (NotRefused r)
  | .ok _ => isTrue fun _ _ _ h => by cases h
  | .error (.tree _) => isTrue fun _ _ _ h => by cases h
  | .error (.output _ (.calls _)) => isTrue fun _ _ _ h => by cases h
  | .error (.output path (.disk q e)) => isFalse fun h => h path q e rfl

/-- Between two disks, the pages below a node have been written to files of their own, each
at its names in a folder, and no other file has changed. -/
structure Written (t : Tree) (o : RenderOptions) (fresh : Fresh) (id : Nat) (dir : Path)
    (names : Nat → List String) (d d' : Disk) : Prop where
  /-- The files of the pages are at their names in one folder, and are all that has changed. -/
  files : ∃ folder : List String,
    (∀ c ∈ t.pagesBelow id, ∃ p f bytes, t.item? c = some (.page p) ∧
      (t.pageNode o c p).render (fresh.below c) = .ok f ∧ IsPageFile o f bytes ∧
      d'.locate (dir.join (pathOf (names c))) = .ok (folder ++ names c, .file bytes)) ∧
    ∀ place, (∀ c ∈ t.pagesBelow id, place ≠ folder ++ names c) →
      d'.fileAt place = d.fileAt place
  /-- What they hold is the article of each page in a document with its title. -/
  texts : ∀ c ∈ t.pagesBelow id, ∀ p f, t.item? c = some (.page p) →
    (t.pageNode o c p).render (fresh.below c) = .ok f →
    ∃ article, (t.article o c p).render (((fresh.below c).below 0).below 0) = .ok article ∧
      f.markup = articleText (p.fullTitle o.siteTitle) o.language o.head article
  /-- Different pages have different names. -/
  distinct : ∀ a ∈ t.pagesBelow id, ∀ b ∈ t.pagesBelow id, names a = names b → a = b
  /-- What was there is there, a file or a folder as before. -/
  grows : d.Grows d'

/-- What `make` does: if all pages below a node render and the disk refuses nothing, it counts
these pages and writes them.  When it is done again, whatever comes of it, files are at the same
places, and it succeeds if all pages render. -/
def MakesFiles (t : Tree) (id : Nat) (dir : Path) (names : Nat → List String)
    (make : RenderOptions → Fresh → Work RenderError Nat) : Prop :=
  ∀ o fresh d, t.PagesRender o fresh id → NotRefused (make o fresh d).1 →
    ∃ d', make o fresh d = (.ok (t.pagesBelow id).length, d') ∧
      t.Written o fresh id dir names d d' ∧
      ∀ o' fresh', d'.SameFiles (make o' fresh' d').2 ∧
        (t.PagesRender o' fresh' id →
          (make o' fresh' d').1 = .ok (t.pagesBelow id).length)

/-- Names that can be those of the files of the pages below a node. -/
structure TellsApart (t : Tree) (id : Nat) (names : Nat → List String) : Prop where
  ne_nil : ∀ c ∈ t.pagesBelow id, names c ≠ []
  isEntryName : ∀ c, ∀ name ∈ names c, IsEntryName name
  isPlainEntry : ∀ c, ∀ name ∈ names c, IsPlainEntry name
  distinct : ∀ a ∈ t.pagesBelow id, ∀ b ∈ t.pagesBelow id, names a = names b → a = b

/-! ## Steps that succeed -/

section Steps

variable {id : Nat} {dir : Path} {names : Nat → List String} {steps : List Step}

theorem MakesPages.allRender (hsteps : t.MakesPages id (fun c => dir.joinAll (names c)) steps)
    (h : t.PagesRender o fresh id) : t.AllRender o fresh steps := by
  intro path c p hm
  obtain ⟨hbelow, hpage, -⟩ := (hsteps.mem_iff path c p).mp hm
  exact h c p (mem_pagesBelow.mpr ⟨hbelow, p, hpage⟩) hpage

theorem TellsApart.join_eq (hnames : t.TellsApart id names) {c : Nat} (hc : c ∈ t.pagesBelow id) :
    dir.join (pathOf (names c)) = dir.joinAll (names c) :=
  (Path.joinAll_eq (hnames.ne_nil c hc) (hnames.isEntryName c)).symm

/-- The place of a page is its names in the folder. -/
theorem TellsApart.placeOf_joinAll (hnames : t.TellsApart id names) {c : Nat}
    (hc : c ∈ t.pagesBelow id) (d : Disk) :
    d.placeOf (dir.joinAll (names c)) = d.placeOf dir ++ names c :=
  d.placeOf_joinAll dir (hnames.ne_nil c hc) fun name hn =>
    ⟨hnames.isEntryName c name hn, hnames.isPlainEntry c name hn⟩

/-- Steps that are done have made their pages at their places. -/
theorem MakesPages.places_eq (hnames : t.TellsApart id names)
    (hsteps : t.MakesPages id (fun c => dir.joinAll (names c)) steps) {done : List Step}
    (hmem : ∀ s ∈ done, s ∈ steps) {d : Disk} (hdone : ∀ s ∈ done, s.IsDone d) :
    done.filterMap (Step.place? d) =
      (done.filterMap Step.pageId?).map fun c => d.placeOf dir ++ names c := by
  rw [List.map_filterMap]
  refine List.filterMap_congr fun s hs => ?_
  cases s with
  | folder path => rfl
  | page path c p =>
      obtain ⟨hbelow, hpage, rfl⟩ := (hsteps.mem_iff path c p).mp (hmem _ hs)
      rw [Step.place?_page (hdone _ hs),
        hnames.placeOf_joinAll (mem_pagesBelow.mpr ⟨hbelow, p, hpage⟩)]
      rfl

/-- The places of the pages are their names in one folder. -/
theorem MakesPages.exists_folder (hnames : t.TellsApart id names)
    (hsteps : t.MakesPages id (fun c => dir.joinAll (names c)) steps) {d : Disk}
    (hdone : ∀ s ∈ steps, s.IsDone d) : ∃ folder : List String,
      (∀ c ∈ t.pagesBelow id, ∀ place e, d.locate (dir.joinAll (names c)) = .ok (place, e) →
        place = folder ++ names c) ∧
      steps.filterMap (Step.place? d) =
        (steps.filterMap Step.pageId?).map fun c => folder ++ names c := by
  refine ⟨d.placeOf dir, fun c hc place e hlocate => ?_,
    hsteps.places_eq hnames (fun _ hs => hs) hdone⟩
  rw [Disk.eq_placeOf_of_locate hlocate, hnames.placeOf_joinAll hc]

/-- Steps that make the pages below a node write them. -/
theorem MakesPages.written (hnames : t.TellsApart id names)
    (hsteps : t.MakesPages id (fun c => dir.joinAll (names c)) steps) {d d' : Disk} {n : Nat}
    (h : t.takeAll o fresh steps d = (.ok n, d')) : t.Written o fresh id dir names d d' := by
  obtain ⟨hgrows, hdone, -, hframe⟩ := of_takeAll_eq_ok h
  obtain ⟨folder, hplace, hplaces⟩ := hsteps.exists_folder hnames hdone
  rw [hplaces] at hframe
  have hbelow : ∀ c ∈ steps.filterMap Step.pageId?, c ∈ t.pagesBelow id :=
    fun c hc => hsteps.perm.mem_iff.mp hc
  constructor
  case files =>
    refine ⟨folder, fun c hc => ?_, fun place hne => hframe place fun hm => ?_⟩
    · obtain ⟨hclimb, p, hpage⟩ := mem_pagesBelow.mp hc
      have hdistinct : (steps.filterMap (Step.place? d')).Nodup := by
        rw [hplaces]
        refine List.Nodup.map_on (fun a ha b hb heq => ?_) hsteps.nodup
        exact hnames.distinct a (hbelow a ha) b (hbelow b hb) (List.append_cancel_left heq)
      have hstep := (hsteps.mem_iff _ c p).mpr ⟨hclimb, hpage, rfl⟩
      obtain ⟨f, place, hf, hlocate⟩ := contents_of_takeAll h hdistinct _ c p hstep
      refine ⟨p, f, _, hpage, hf, isPageFile_pageBytes o f, ?_⟩
      rw [← Path.joinAll_eq (hnames.ne_nil c hc) (hnames.isEntryName c), hlocate,
        hplace c hc _ _ hlocate]
    · obtain ⟨c, hc, rfl⟩ := List.mem_map.mp hm
      exact hne c (hbelow c hc) rfl
  case texts =>
    intro c _ p f _ hf
    exact exists_article_of_render hf
  case distinct => exact hnames.distinct
  case grows => exact hgrows

theorem MakesPages.makesFiles (hnames : t.TellsApart id names)
    (hsteps : t.MakesPages id (fun c => dir.joinAll (names c)) steps)
    {make : RenderOptions → Fresh → Work RenderError Nat}
    (hmake : ∀ o fresh d, make o fresh d = t.takeAll o fresh steps d) :
    t.MakesFiles id dir names make := by
  intro o fresh d hrender haccepted
  rw [hmake] at haccepted ⊢
  rcases hrun : t.takeAll o fresh steps d with ⟨e | n, d'⟩
  · obtain ⟨path, c, p, es, hm, hf, -⟩ | ⟨path, q, err, rfl⟩ := of_takeAll_eq_error hrun
    · obtain ⟨f, hok⟩ := hsteps.allRender hrender path c p hm
      cases hf.symm.trans hok
    · rw [hrun] at haccepted
      exact absurd rfl (haccepted path q err)
  · have hcount : ∀ {o fresh d d' n}, t.takeAll o fresh steps d = (.ok n, d') →
        n = (t.pagesBelow id).length := fun h =>
      (of_takeAll_eq_ok h).2.2.1.trans hsteps.perm.length_eq
    refine ⟨d', by rw [hcount hrun], hsteps.written hnames hrun, fun o' fresh' => ?_⟩
    obtain ⟨r, d'', hagain, hsame, hok⟩ :=
      takeAll_of_isDone (t := t) (of_takeAll_eq_ok hrun).2.1 o' fresh'
    rw [hmake, hagain]
    refine ⟨hsame, fun hrender' => ?_⟩
    obtain ⟨m, rfl⟩ := hok (hsteps.allRender hrender')
    rw [hcount hagain]

end Steps

/-! ## Rendering -/

theorem WellFormed.tellsApart_entriesFrom (h : t.WellFormed P)
    (hP : ∀ item, P item → IsPlainEntry item.entry) {id : Nat} (hid : id < t.size) :
    t.TellsApart id (t.entriesFrom id) where
  ne_nil c _ := by
    obtain ⟨item, hi⟩ := exists_item? hid
    rw [entriesFrom_eq_cons hi]
    exact List.cons_ne_nil _ _
  isEntryName c := h.forall_entriesFrom (fun item _ => item.isEntryName_entry) id c
  isPlainEntry c := h.forall_entriesFrom hP id c
  distinct a ha b hb heq :=
    h.eq_of_entriesFrom (mem_pagesBelow.mp ha).1 (mem_pagesBelow.mp hb).1 (congrArg List.tail heq)

/-- Below a document, the names of pages do without the folder of the document. -/
theorem WellFormed.tellsApart_tail_entriesFrom (h : t.WellFormed P)
    (hP : ∀ item, P item → IsPlainEntry item.entry) {id : Nat} {doc : Document}
    (hd : t.item? id = some (.document doc)) :
    t.TellsApart id fun c => (t.entriesFrom id c).tail where
  ne_nil c hc := by
    obtain ⟨hbelow, p, hpage⟩ := mem_pagesBelow.mp hc
    exact h.tail_entriesFrom_ne_nil hd hpage hbelow
  isEntryName c name hn :=
    h.forall_entriesFrom (fun item _ => item.isEntryName_entry) id c name (List.mem_of_mem_tail hn)
  isPlainEntry c name hn := h.forall_entriesFrom hP id c name (List.mem_of_mem_tail hn)
  distinct a ha b hb := h.eq_of_entriesFrom (mem_pagesBelow.mp ha).1 (mem_pagesBelow.mp hb).1

/-- Rendering a node makes one file for every page below it. -/
theorem WellFormed.makesFiles_render (h : t.WellFormed P)
    (hP : ∀ item, P item → IsPlainEntry item.entry) {id : Nat} (hid : id < t.size) (base : Path) :
    t.MakesFiles id base (t.entriesFrom id) fun o fresh => t.render o fresh id base := by
  obtain ⟨b, hb, -⟩ := h.exists_branch? hid
  exact (h.makesPages_steps id b hb base).makesFiles (h.tellsApart_entriesFrom hP hid)
    fun _ _ => render_eq hb base

/-- Rendering what is below a document does so without the folder of the document. -/
theorem WellFormed.makesFiles_renderInto (h : t.WellFormed P)
    (hP : ∀ item, P item → IsPlainEntry item.entry) {id : Nat} {doc : Document}
    (hd : t.item? id = some (.document doc)) (dir : Path) :
    t.MakesFiles id dir (fun c => (t.entriesFrom id c).tail)
      fun o fresh => t.renderInto o fresh id dir := by
  have hsteps := h.makesPages_stepsBelow hd dir fun k b _ hkb =>
    h.makesPages_steps k b hkb dir
  exact hsteps.makesFiles (h.tellsApart_tail_entriesFrom hP hd) fun _ _ =>
    renderInto_eq (h.branch?_of_document hd) dir

/-- Below a root, the entries on the way to a page are its path on disk. -/
theorem WellFormed.physicalPath_of_root (h : t.WellFormed P) {r c : Nat}
    (hr : t.parent? r = none) (hc : c ∈ t.pagesBelow r) :
    t.physicalPath c = .ok (pathOf (t.entriesFrom r c)) := by
  obtain ⟨hbelow, p, hpage⟩ := mem_pagesBelow.mp hc
  rw [h.physicalPath_of_page hpage, h.entriesFrom_of_root hr hbelow]

/-- What rendering a node does. -/
structure OneFilePerPage (t : Tree) (id : Nat) : Prop where
  /-- The pages below the node are those that children of children lead to. -/
  pages : ∀ c, c ∈ t.pagesBelow id ↔
    Relation.ReflTransGen (fun d k => k ∈ t.childrenOf d) id c ∧ ∃ p, t.item? c = some (.page p)
  /-- Each of them is counted once. -/
  nodup : (t.pagesBelow id).Nodup
  /-- The pages below the node are written to a folder, at the entries down to them. -/
  render : ∀ base, t.MakesFiles id base (t.entriesFrom id) fun o fresh => t.render o fresh id base
  /-- If the node belongs to no document, these are the paths of the pages on disk. -/
  physicalPath : t.parent? id = none → ∀ c ∈ t.pagesBelow id,
    t.physicalPath c = .ok (pathOf (t.entriesFrom id c))
  /-- What is below a document is written to a folder in place of the one of the document. -/
  renderInto : ∀ doc, t.item? id = some (.document doc) →
    (∀ c ∈ t.pagesBelow id, ∃ rest, t.entriesFrom id c = doc.folder :: rest) ∧
    ∀ dir, t.MakesFiles id dir (fun c => (t.entriesFrom id c).tail)
      fun o fresh => t.renderInto o fresh id dir

theorem WellFormed.oneFilePerPage (h : t.WellFormed P)
    (hP : ∀ item, P item → IsPlainEntry item.entry) {id : Nat} (hid : id < t.size) :
    t.OneFilePerPage id where
  pages c := by rw [mem_pagesBelow, h.mem_climb_iff hid]
  nodup := t.nodup_pagesBelow id
  render := h.makesFiles_render hP hid
  physicalPath hr _ hc := h.physicalPath_of_root hr hc
  renderInto _ hd := ⟨fun _ _ => ⟨_, entriesFrom_eq_cons hd⟩, h.makesFiles_renderInto hP hd⟩

/-- Every page has its own file in a tree of pages and documents as they are constructed. -/
theorem oneFilePerPage_make {changes : List Change} (h : ∀ c ∈ changes, c.Constructed) {id : Nat}
    (hid : id < (make changes).size) : (make changes).OneFilePerPage id :=
  (wellFormed_make fun c hc => (h c hc).adds).oneFilePerPage (fun _ hplain => hplain) hid

/-- A page and an index in a folder, below a document with an index of its own. -/
theorem oneFilePerPage_make_nested : ∃ page index folder root d',
    Page.ofName? "p1" "" = .ok page ∧ Page.ofName? "index" "" = .ok index ∧
    Document.ofName? "d1" = .ok folder ∧ Document.ofName? "main" = .ok root ∧
    let t := make [.page page, .page index, .document folder [0, 1], .page index,
      .document root [3, 2]]
    (t.pagesBelow 4).map (t.entriesFrom 4) =
      [["main", "d1", "p1.html"], ["main", "d1", "index.html"], ["main", "index.html"]] ∧
    t.render ⟨.empty, .standard, false, "en", none, []⟩ (Fresh.ofSeed 7) 4 ⟨"out"⟩ {} =
      (.ok (t.pagesBelow 4).length, d') ∧
    t.Written ⟨.empty, .standard, false, "en", none, []⟩ (Fresh.ofSeed 7) 4 ⟨"out"⟩
      (t.entriesFrom 4) {} d' ∧
    (d'.readText ⟨"out/main/index.html"⟩).toOption =
      some ("<!DOCTYPE html>\n<html lang=\"en\">\n<head>\n  <meta charset=\"utf-8\"/>\n" ++
        "  <title>index</title>\n</head>\n<body>\n  <div class=\"markdown\">\n  </div>\n" ++
        "</body>\n</html>\n") := by
  have hpage := @Page.Made.ofName "p1" "" _ rfl
  have hindex := @Page.Made.ofName "index" "" _ rfl
  have hfolder := @Document.Made.ofName "d1" _ rfl
  have hroot := @Document.Made.ofName "main" _ rfl
  obtain ⟨d', hrender, hwritten, -⟩ := (@oneFilePerPage_make
    [.page _, .page _, .document _ [0, 1], .page _, .document _ [3, 2]]
    (by
      intro c hc
      simp only [List.mem_cons, List.not_mem_nil, or_false] at hc
      rcases hc with rfl | rfl | rfl | rfl | rfl
      · exact hpage
      · exact hindex
      · exact ⟨hfolder, by decide, by decide⟩
      · exact hindex
      · exact ⟨hroot, by decide, by decide⟩)
    4 (by decide)).render ⟨"out"⟩ ⟨.empty, .standard, false, "en", none, []⟩ (Fresh.ofSeed 7) {}
    (by decide +kernel) (by decide +kernel)
  obtain rfl : _ = d' := congrArg Prod.snd hrender
  exact ⟨_, _, _, _, _, rfl, rfl, rfl, rfl, by decide +kernel, hrender, hwritten,
    by decide +kernel⟩

end Tree

end PageLoom
