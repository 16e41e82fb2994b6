import PageLoom.Proofs.Site.Collects
import PageLoom.Proofs.Tree.Files

/-!
# A site has all of its content

What has been collected from a folder has a page for every visible `md` file and for nothing
else, at the path of the file without its extension.  Every other visible file is copied once,
unless it holds the context of a page (`Faithful`).

Following names down from a node and following folders down from the entries that it was
collected from goes the same way: a file leads to a page (`Collects.exists_descend?`), and a page
leads to a file (`Collects.exists_fileBelow`).  Both go by induction on the way, with what
`Becomes` says of one entry.
-/

namespace PageLoom

variable {t : Tree} {site : Context} {siblings entries around : List (String × Entry)}
  {ids : List Nat} {places : List (List String × String)}

/-! ## One folder -/

namespace Collects

theorem exists_of_mem (h : Collects t site siblings entries ids places) {x : String × Entry}
    (hx : x ∈ entries) : ∃ more others, Becomes t site siblings x more others ∧
      (∀ id ∈ more, id ∈ ids) ∧ ∀ place ∈ others, place ∈ places := by
  induction entries generalizing ids places with
  | nil => cases hx
  | cons y rest ih =>
      obtain _ | ⟨hfirst, hrest⟩ := h
      rcases List.mem_cons.mp hx with rfl | hx
      · exact ⟨_, _, hfirst, fun _ => List.mem_append_left _, fun _ => List.mem_append_left _⟩
      · obtain ⟨more, others, hbecomes, hids, hplaces⟩ := ih hrest hx
        exact ⟨more, others, hbecomes, fun id hid => List.mem_append_right _ (hids id hid),
          fun place hplace => List.mem_append_right _ (hplaces place hplace)⟩

theorem exists_of_mem_ids (h : Collects t site siblings entries ids places) {id : Nat}
    (hid : id ∈ ids) : ∃ x ∈ entries, ∃ more others, Becomes t site siblings x more others ∧
      id ∈ more := by
  induction entries generalizing ids places with
  | nil =>
      cases h
      cases hid
  | cons y rest ih =>
      obtain _ | ⟨hfirst, hrest⟩ := h
      rcases List.mem_append.mp hid with hid | hid
      · exact ⟨y, .head _, _, _, hfirst, hid⟩
      · obtain ⟨x, hx, hbecomes⟩ := ih hrest hid
        exact ⟨x, .tail _ hx, hbecomes⟩

theorem exists_of_mem_places (h : Collects t site siblings entries ids places)
    {place : List String × String} (hplace : place ∈ places) : ∃ x ∈ entries, ∃ more others,
      Becomes t site siblings x more others ∧ place ∈ others := by
  induction entries generalizing ids places with
  | nil =>
      cases h
      cases hplace
  | cons y rest ih =>
      obtain _ | ⟨hfirst, hrest⟩ := h
      rcases List.mem_append.mp hplace with hplace | hplace
      · exact ⟨y, .head _, _, _, hfirst, hplace⟩
      · obtain ⟨x, hx, hbecomes⟩ := ih hrest hplace
        exact ⟨x, .tail _ hx, hbecomes⟩

end Collects

/-! ## From files to pages -/

/-- A visible `md` file below some entries leads to a page, by its folders and its stem. -/
theorem Collects.exists_descend? {P : Item → Prop} (ht : t.WellFormed P) {dirs : List String}
    {name : String} {bytes : ByteArray} (hext : extensionOf name = some "md")
    (h : Collects t site entries entries ids places)
    (hfile : FileBelow entries entries dirs name bytes around) :
    ids ≠ [] ∧ ∀ k, t.childrenOf k = ids → ∃ id p,
      t.descend? k (dirs ++ [stemOf name]) = some id ∧ t.item? id = some (.page p) ∧
      IsPageOf site around (stemOf name) bytes p := by
  induction dirs generalizing entries ids places with
  | nil =>
      obtain ⟨hm, hname, rfl⟩ := hfile
      obtain ⟨more, others, hbecomes, hids, -⟩ := h.exists_of_mem hm
      cases hbecomes with
      | hidden _ _ hhidden => cases hname.symm.trans hhidden
      | companion _ _ hother _ => exact absurd hext hother
      | copy _ _ hother _ => exact absurd hext hother
      | @page _ _ _ id p _ _ hitem hpage =>
          have hid := hids id (.head _)
          refine ⟨List.ne_nil_of_mem hid, fun k hk => ⟨id, p, ?_, hitem, hpage⟩⟩
          have hchild := ht.child?_eq_some_iff.mpr
            ⟨(ht.mem_childrenOf id k).mp (hk ▸ hid), _, hitem, hpage.name⟩
          rw [List.nil_append, Tree.descend?, hchild]
          rfl
  | cons dir dirs ih =>
      obtain ⟨inside, hm, hdir, hfile⟩ := hfile
      obtain ⟨more, others, hbecomes, hids, -⟩ := h.exists_of_mem hm
      cases hbecomes with
      | hidden _ _ hhidden => cases hdir.symm.trans hhidden
      | @folder _ _ below _ _ id _ hinside hid =>
          obtain ⟨hne, hdown⟩ := ih hinside hfile
          cases id with
          | none => exact absurd hid hne
          | some d =>
              obtain ⟨⟨doc, hdoc, hname⟩, hbelow⟩ := hid
              have hd := hids d (.head _)
              refine ⟨List.ne_nil_of_mem hd, fun k hk => ?_⟩
              have hchild := ht.child?_eq_some_iff.mpr
                ⟨(ht.mem_childrenOf d k).mp (hk ▸ hd), _, hdoc, hname⟩
              rw [List.cons_append, Tree.descend?, hchild]
              exact hdown d hbelow

/-! ## From pages to files -/

/-- A page that names lead to is the page of a visible file. -/
theorem Collects.exists_fileBelow {P : Item → Prop} (ht : t.WellFormed P) {names : List String}
    (h : Collects t site entries entries ids places) {k id : Nat} {p : Page}
    (hk : t.childrenOf k = ids) (hne : names ≠ []) (hid : t.descend? k names = some id)
    (hp : t.item? id = some (.page p)) : ∃ dirs name bytes around,
      FileBelow entries entries dirs name bytes around ∧ extensionOf name = some "md" ∧
      names = dirs ++ [stemOf name] := by
  induction names generalizing entries ids places k with
  | nil => exact absurd rfl hne
  | cons n names ih =>
      rw [Tree.descend?] at hid
      obtain ⟨c, hc, hnext⟩ := Option.bind_eq_some_iff.mp hid
      obtain ⟨hparent, item, hitem, rfl⟩ := ht.child?_eq_some_iff.mp hc
      obtain ⟨x, hx, more, others, hbecomes, hmore⟩ :=
        h.exists_of_mem_ids (hk ▸ (ht.mem_childrenOf c k).mpr hparent)
      cases hbecomes with
      | hidden => cases hmore
      | companion => cases hmore
      | copy => cases hmore
      | page hname hext hpage hpageOf =>
          cases List.mem_singleton.mp hmore
          cases hitem.symm.trans hpage
          cases names with
          | nil => exact ⟨[], _, _, _, ⟨hx, hname, rfl⟩, hext, by rw [List.nil_append, Item.name,
              hpageOf.name]⟩
          | cons m names =>
              -- Nothing is below a page.
              obtain ⟨e, he, -⟩ := Option.bind_eq_some_iff.mp hnext
              obtain ⟨doc, hdoc, -⟩ := ht.fits_of_parent? (ht.child?_eq_some_iff.mp he).1
              cases hdoc.symm.trans hpage
      | folder _ hname hinside hfolder =>
          cases Option.mem_toList.mp hmore
          obtain ⟨⟨doc, hdoc, hdocname⟩, hbelow⟩ := hfolder
          cases hitem.symm.trans hdoc
          have hnames : names ≠ [] := by
            rintro rfl
            cases hnext
            cases hdoc.symm.trans hp
          obtain ⟨dirs, name, bytes, around, hfile, hext, hnames⟩ := ih hinside hbelow hnames hnext
          refine ⟨_ :: dirs, name, bytes, around, ⟨_, hx, hname, hfile⟩, hext, ?_⟩
          rw [Item.name, hdocname, hnames]
          rfl

/-! ## Files to be copied -/

/-- The files to be copied are those that are neither pages nor contexts of pages. -/
theorem Collects.mem_places_iff {dirs : List String} {file : String}
    (h : Collects t site siblings entries ids places) : (dirs, file) ∈ places ↔
      ∃ bytes around, FileBelow siblings entries dirs file bytes around ∧
        extensionOf file ≠ some "md" ∧ isCompanion around file = false := by
  induction dirs generalizing siblings entries ids places with
  | nil =>
      constructor
      · intro hm
        obtain ⟨x, hx, more, others, hbecomes, hothers⟩ := h.exists_of_mem_places hm
        cases hbecomes with
        | hidden => cases hothers
        | page => cases hothers
        | companion => cases hothers
        | copy bytes hname hext hcompanion =>
            cases List.mem_singleton.mp hothers
            exact ⟨bytes, siblings, ⟨hx, hname, rfl⟩, hext, hcompanion⟩
        | folder =>
            obtain ⟨place, -, hplace⟩ := List.mem_map.mp hothers
            cases hplace
      · rintro ⟨bytes, around, ⟨hm, hname, rfl⟩, hext, hcompanion⟩
        obtain ⟨more, others, hbecomes, -, hplaces⟩ := h.exists_of_mem hm
        cases hbecomes with
        | hidden _ _ hhidden => cases hname.symm.trans hhidden
        | page _ hpage => exact absurd hpage hext
        | companion _ _ _ hcontext => cases hcompanion.symm.trans hcontext
        | copy => exact hplaces _ (.head _)
  | cons dir dirs ih =>
      constructor
      · intro hm
        obtain ⟨x, hx, more, others, hbecomes, hothers⟩ := h.exists_of_mem_places hm
        cases hbecomes with
        | hidden => cases hothers
        | page => cases hothers
        | companion => cases hothers
        | copy => cases List.mem_singleton.mp hothers
        | folder _ hname hinside =>
            obtain ⟨⟨below, f⟩, hbelow, hplace⟩ := List.mem_map.mp hothers
            cases hplace
            obtain ⟨bytes, around, hfile, hrest⟩ := (ih hinside).mp hbelow
            exact ⟨bytes, around, ⟨_, hx, hname, hfile⟩, hrest⟩
      · rintro ⟨bytes, around, ⟨inside, hm, hdir, hfile⟩, hrest⟩
        obtain ⟨more, others, hbecomes, -, hplaces⟩ := h.exists_of_mem hm
        cases hbecomes with
        | hidden _ _ hhidden => cases hdir.symm.trans hhidden
        | folder _ _ hinside =>
            exact hplaces _ (List.mem_map_of_mem ((ih hinside).mpr ⟨bytes, around, hfile, hrest⟩))

/-- What becomes of an entry is copied from places that start with its name. -/
theorem Becomes.head?_place {x : String × Entry} (h : Becomes t site siblings x ids places)
    {place : List String × String} (hm : place ∈ places) :
    (place.1 ++ [place.2]).head? = some x.1 := by
  cases h with
  | hidden => cases hm
  | page => cases hm
  | companion => cases hm
  | copy =>
      cases List.mem_singleton.mp hm
      rfl
  | folder =>
      obtain ⟨below, -, rfl⟩ := List.mem_map.mp hm
      rfl

/-- No file is copied twice. -/
theorem Collects.nodup_places (hproper : (Entry.folder entries).Proper)
    (h : Collects t site siblings entries ids places) : places.Nodup := by
  -- Entries differ in name, and with that in the first names of their places.
  have hcons : ∀ {siblings rest : List (String × Entry)} {x : String × Entry} {ids more : List Nat}
      {places others : List (List String × String)}, (Entry.folder (x :: rest)).Proper →
      Becomes t site siblings x ids places → Collects t site siblings rest more others →
      places.Nodup → others.Nodup → (places ++ others).Nodup := by
    intro siblings rest x ids more places others hproper hfirst hrest hplaces hothers
    refine List.nodup_append.mpr ⟨hplaces, hothers, fun a ha b hb heq => ?_⟩
    obtain ⟨y, hy, _, _, hbecomes, hm⟩ := hrest.exists_of_mem_places hb
    refine hproper.of_cons.2.2 y hy (Option.some.inj ?_)
    rw [← hfirst.head?_place ha, heq, hbecomes.head?_place hm]
  induction entries using entries_induction generalizing siblings ids places with
  | nil =>
      cases h
      exact .nil
  | file name bytes rest ih =>
      obtain _ | ⟨hfirst, hrest⟩ := h
      refine hcons hproper hfirst hrest ?_ (ih hproper.of_cons.2.1 hrest)
      cases hfirst with
      | hidden => exact .nil
      | page => exact .nil
      | companion => exact .nil
      | copy => exact List.nodup_singleton _
  | folder name inside rest ihInside ih =>
      obtain _ | ⟨hfirst, hrest⟩ := h
      refine hcons hproper hfirst hrest ?_ (ih hproper.of_cons.2.1 hrest)
      cases hfirst with
      | hidden => exact .nil
      | folder _ _ hinside =>
          refine (ihInside hproper.of_cons.1 hinside).map fun a b heq => ?_
          obtain ⟨hdirs, hfile⟩ := Prod.mk.inj heq
          exact Prod.ext (List.cons.inj hdirs).2 hfile

/-! ## Sites -/

theorem Tree.mem_pageIds {id : Nat} : id ∈ t.pageIds ↔ ∃ p, t.item? id = some (.page p) := by
  rw [pageIds, List.mem_filter, List.mem_range, isSome_page?_iff]
  refine ⟨And.right, fun h => ⟨?_, h⟩⟩
  obtain ⟨p, hp⟩ := h
  exact lt_size_of_item? hp

/-- The path of names from a root leads where following the names leads. -/
theorem Tree.find_pathOf_eq_ok_iff {r id : Nat} {item : Item} (hr : t.item? r = some item)
    {names : List String} (hnames : ∀ name ∈ names, '/' ∉ name.toList) :
    t.find r (pathOf (item.name :: names)) = .ok id ↔ t.descend? r names = some id := by
  obtain ⟨n, hn, rfl⟩ := Option.map_eq_some_iff.mp hr
  rw [Tree.find, Tree.node, hn, segmentsOf_pathOf (List.cons_ne_nil _ _)
    (List.forall_mem_cons.mpr ⟨n.item.isNodeName_name.2.1, hnames⟩)]
  simp only [if_true]
  cases t.descend? r names with
  | none => exact ⟨fun h => (by cases h), fun h => (by cases h)⟩
  | some c => rw [Except.ok.injEq, Option.some_inj]

/-- A collected site has all of the content, and nothing else. -/
structure Faithful (site : Context) (content out : Path) (name : String)
    (entries : List (String × Entry)) (c : Collected) (root : Nat) : Prop where
  /-- The root is a document of the given name. -/
  document : ∃ d, c.tree.item? root = some (.document d) ∧ d.name = name
  /-- Every visible `md` file is a page, which is found at its path.  Its context is that of the
  site, except for what the `json` file next to it holds. -/
  page_of_file : ∀ dirs stem bytes, IsVisible (dirs ++ [stem ++ ".md"]) →
    (Entry.folder entries).file? (dirs ++ [stem ++ ".md"]) = some bytes →
    ∃ id p, c.tree.find root (pathOf (name :: dirs ++ [stem])) = .ok id ∧
      c.tree.item? id = some (.page p) ∧ textOf bytes = .ok p.template ∧
      IsContextOf site ((Entry.folder entries).file? (dirs ++ [stem ++ ".json"])) p.context
  /-- Every page is that of such a file. -/
  file_of_page : ∀ id p, c.tree.item? id = some (.page p) → ∃ dirs stem,
    IsVisible (dirs ++ [stem ++ ".md"]) ∧
    ((Entry.folder entries).file? (dirs ++ [stem ++ ".md"])).isSome = true ∧
    c.tree.find root (pathOf (name :: dirs ++ [stem])) = .ok id
  /-- Different files are different pages. -/
  distinct : ∀ dirs stem dirs' stem' id,
    ((Entry.folder entries).file? (dirs ++ [stem ++ ".md"])).isSome = true →
    ((Entry.folder entries).file? (dirs' ++ [stem' ++ ".md"])).isSome = true →
    c.tree.find root (pathOf (name :: dirs ++ [stem])) = .ok id →
    c.tree.find root (pathOf (name :: dirs' ++ [stem'])) = .ok id → dirs = dirs' ∧ stem = stem'
  /-- Every other visible file is copied once, unless it is a `json` file next to an `md` file of
  the same stem.  The copy is in folders that are called as on disk. -/
  copies : ∃ places : List (List String × String), places.Nodup ∧
    c.copies = places.map (copyOf content out) ∧
    ∀ dirs file, (dirs, file) ∈ places ↔ IsVisible (dirs ++ [file]) ∧
      ((Entry.folder entries).file? (dirs ++ [file])).isSome = true ∧
      (¬ ∃ stem, file = stem ++ ".md") ∧
      ¬ ∃ stem, file = stem ++ ".json" ∧
        ((Entry.folder entries).file? (dirs ++ [stem ++ ".md"])).isSome = true
  /-- Different copies have different sources. -/
  sources : (c.copies.map Prod.fst).Nodup
  /-- All nodes are below the root. -/
  rootOf : ∀ id, id < c.tree.size → c.tree.rootOf id = .ok root
  /-- Pages are counted once. -/
  pages : c.pages = c.tree.pageIds.length
  /-- So are those that are rendered. -/
  rendered : ∀ o fresh dir d n d',
    c.tree.renderInto o fresh root dir d = (.ok n, d') → n = c.pages

/-- The stem of a visible file is not empty. -/
theorem ne_empty_of_isVisible {dirs : List String} {stem ext : String}
    (h : IsVisible (dirs ++ [stem ++ ext])) (hext : isHidden ext = true) : stem ≠ "" := by
  rintro rfl
  have hname := h ("" ++ ext) (by simp)
  rw [String.empty_append, hext] at hname
  cases hname

/-- Names that lead to a file of a proper folder lead down. -/
theorem isEntryName_of_file? (h : (Entry.folder entries).Proper) {place : List String}
    (hfile : ((Entry.folder entries).file? place).isSome = true) :
    ∀ name ∈ place, IsEntryName name := by
  obtain ⟨bytes, hbytes⟩ := Option.isSome_iff_exists.mp hfile
  exact fun name hname => ((h.at? (Entry.file?_eq_some_iff.mp hbytes)).2 name hname).1

/-- The stem of a file has no `/`, nor have the folders that it is in. -/
theorem slash_not_mem_of_file? (h : (Entry.folder entries).Proper) {dirs : List String}
    {stem ext : String}
    (hfile : ((Entry.folder entries).file? (dirs ++ [stem ++ ext])).isSome = true) :
    ∀ name ∈ dirs ++ [stem], '/' ∉ name.toList := by
  have hnames := isEntryName_of_file? h hfile
  refine List.forall_mem_append.mpr ⟨fun name hname => (hnames name (by simp [hname])).2, ?_⟩
  have hlast := (hnames (stem ++ ext) (by simp)).2
  rw [String.toList_append, List.mem_append, not_or] at hlast
  exact List.forall_mem_singleton.mpr hlast.1

theorem joinAll_injective (p : Path) {names names' : List String} (hne : names ≠ [])
    (hne' : names' ≠ []) (h : ∀ name ∈ names, IsEntryName name)
    (h' : ∀ name ∈ names', IsEntryName name) (heq : p.joinAll names = p.joinAll names') :
    names = names' := by
  obtain ⟨front, -, -, -, hfront⟩ := p.exists_segments_joinAll
  have hsegments := congrArg Path.segments heq
  rw [hfront names hne h, hfront names' hne' h'] at hsegments
  exact List.append_cancel_left hsegments

/-- In a proper folder, the places of the files to be copied are those of the visible files that
are neither pages nor contexts of pages. -/
theorem Collects.mem_places_iff_file? (hentries : (Entry.folder entries).Proper)
    (h : Collects t site entries entries ids places) {dirs : List String} {file : String} :
    (dirs, file) ∈ places ↔ IsVisible (dirs ++ [file]) ∧
      ((Entry.folder entries).file? (dirs ++ [file])).isSome = true ∧
      (¬ ∃ stem, file = stem ++ ".md") ∧
      ¬ ∃ stem, file = stem ++ ".json" ∧
        ((Entry.folder entries).file? (dirs ++ [stem ++ ".md"])).isSome = true := by
  have hmd : ∀ {stem}, IsVisible (dirs ++ [stem ++ ".md"]) → stem ≠ "" := fun hvisible =>
    ne_empty_of_isVisible hvisible (by decide)
  have hjson : ∀ {stem}, IsVisible (dirs ++ [stem ++ ".json"]) → stem ≠ "" := fun hvisible =>
    ne_empty_of_isVisible hvisible (by decide)
  rw [h.mem_places_iff]
  constructor
  · rintro ⟨bytes, around, hbelow, hext, hcompanion⟩
    obtain ⟨hvisible, hat, -⟩ := (fileBelow_iff hentries).mp hbelow
    have hfile := ((exists_fileBelow_iff hentries).mp ⟨around, hbelow⟩).2
    refine ⟨hvisible, by rw [hfile]; rfl, ?_, ?_⟩
    · rintro ⟨stem, rfl⟩
      exact hext (extensionOf_eq_md_iff.mpr ⟨stem, hmd hvisible, rfl⟩)
    · rintro ⟨stem, rfl, hpage⟩
      rw [file?_eq_fileNamed? hat] at hpage
      cases hcompanion.symm.trans (isCompanion_iff.mpr ⟨stem, hjson hvisible, rfl, hpage⟩)
  · rintro ⟨hvisible, hsome, hext, hcompanion⟩
    obtain ⟨bytes, hfile⟩ := Option.isSome_iff_exists.mp hsome
    obtain ⟨around, hbelow⟩ := (exists_fileBelow_iff hentries).mpr ⟨hvisible, hfile⟩
    have hat := ((fileBelow_iff hentries).mp hbelow).2.1
    refine ⟨bytes, around, hbelow, fun hmd => ?_, Bool.eq_false_iff.mpr fun hcontext => ?_⟩
    · obtain ⟨stem, -, hname⟩ := extensionOf_eq_md_iff.mp hmd
      exact hext ⟨stem, hname⟩
    · obtain ⟨stem, -, hname, hpage⟩ := isCompanion_iff.mp hcontext
      exact hcompanion ⟨stem, hname, by rw [file?_eq_fileNamed? hat]; exact hpage⟩

/-- No two copies of files in a proper folder are from one source. -/
theorem Collects.nodup_sources (hentries : (Entry.folder entries).Proper) (content out : Path)
    (h : Collects t site entries entries ids places) :
    ((places.map (copyOf content out)).map Prod.fst).Nodup := by
  rw [List.map_map]
  refine (h.nodup_places hentries).map_on fun a ha b hb heq => ?_
  have hnames := fun {place : List String × String} (hm : place ∈ places) =>
    isEntryName_of_file? hentries ((h.mem_places_iff_file? hentries).mp hm).2.1
  obtain ⟨hdirs, hfile⟩ := List.append_inj'
    (joinAll_injective content (by simp) (by simp) (hnames ha) (hnames hb) heq) rfl
  exact Prod.ext hdirs (List.singleton_inj.mp hfile)

/-- A page below a node that a proper folder was collected to is that of a visible `md` file. -/
theorem Collects.exists_file?_of_page {P : Item → Prop} (ht : t.WellFormed P)
    (hentries : (Entry.folder entries).Proper)
    (h : Collects t site entries entries ids places) {k id : Nat} {names : List String} {p : Page}
    (hk : t.childrenOf k = ids) (hne : names ≠ []) (hid : t.descend? k names = some id)
    (hp : t.item? id = some (.page p)) : ∃ dirs stem, names = dirs ++ [stem] ∧
      IsVisible (dirs ++ [stem ++ ".md"]) ∧
      ((Entry.folder entries).file? (dirs ++ [stem ++ ".md"])).isSome = true := by
  obtain ⟨dirs, name, bytes, around, hbelow, hext, rfl⟩ := h.exists_fileBelow ht hk hne hid hp
  obtain ⟨stem, hstem, rfl⟩ := extensionOf_eq_md_iff.mp hext
  rw [(append_extension stem).1, stemOf_append hstem (by decide)]
  obtain ⟨hvisible, hfile⟩ := (exists_fileBelow_iff hentries).mp ⟨around, hbelow⟩
  exact ⟨dirs, stem, rfl, hvisible, by rw [hfile]; rfl⟩

/-- When all nodes are below a document, rendering it renders all pages. -/
theorem Tree.WellFormed.eq_of_renderInto_eq_ok {P : Item → Prop} (ht : t.WellFormed P)
    {root : Nat} {doc : Document} (hdoc : t.item? root = some (.document doc))
    (hrootOf : ∀ id, id < t.size → t.rootOf id = .ok root) {o : RenderOptions} {fresh : Fresh}
    {dir : Path} {d d' : Disk} {n : Nat}
    (hdone : t.renderInto o fresh root dir d = (.ok n, d')) : n = t.pageIds.length := by
  have hpagesOf := ht.makesPages_stepsBelow hdoc dir fun k b _ hkb =>
    ht.makesPages_steps k b hkb dir
  rw [Tree.renderInto_eq (ht.branch?_of_document hdoc)] at hdone
  rw [(Tree.of_takeAll_eq_ok hdone).2.2.1.trans hpagesOf.perm.length_eq]
  -- The pages below the root are those of the tree.
  refine congrArg List.length (List.filter_congr fun k hk => ?_)
  have hbelow := List.mem_of_getLast? (Tree.getLast?_climb (hrootOf k (List.mem_range.mp hk)))
  rw [List.contains_iff_mem.mpr hbelow, Bool.true_and]

/-- What a site is collected to: a tree with one root, whose children are those collected. -/
theorem of_collectSite_eq_ok {content out : Path} {name : String} {c : Collected} {root : Nat}
    (h : collectSite site content out name (.ok entries) = .ok (c, root)) : ∃ ids places,
      c.tree.WellFormed (fun _ => True) ∧ IsFolderOf c.tree name ids (some root) ∧
      (∀ id, id < c.tree.size → c.tree.rootOf id = .ok root) ∧
      Collects c.tree site entries entries ids places ∧
      c.copies = places.map (copyOf content out) ∧ c.pages = c.tree.pageIds.length := by
  obtain ⟨d, hd, h⟩ := bind_eq_ok_iff.mp h
  obtain ⟨listed, hlisted, h⟩ := bind_eq_ok_iff.mp h
  cases mapError_eq_ok_iff.mp hlisted
  obtain ⟨⟨c₁, ids⟩, hentries, h⟩ := bind_eq_ok_iff.mp h
  obtain ⟨⟨c₂, id⟩, hdocument, h⟩ := bind_eq_ok_iff.mp h
  cases id with
  | none => cases h
  | some r =>
      cases h
      obtain ⟨hadds, places, hcollects, hcopies⟩ := collects_collectEntries .empty hentries
      obtain ⟨hroot, hfolder, hkeeps, hcopies'⟩ := adds_addDocument hadds hdocument
      rw [(document_ofName?_eq_ok (mapError_eq_ok_iff.mp hd)).1] at hfolder
      refine ⟨ids, places, hroot.wellFormed, hfolder, fun id hid => ?_, hcollects.mono hkeeps,
        hcopies'.trans hcopies, ?_⟩
      · obtain ⟨k, hk, hkt, hp⟩ := hroot.wellFormed.exists_rootOf hid
        rw [hk, List.mem_singleton.mp ((hroot.mem_ids k).mpr ⟨Nat.zero_le k, hkt, hp⟩)]
      · have hpages := hroot.pages
        exact (Nat.add_zero _).symm.trans (hpages.trans (Nat.zero_add _))

theorem faithful_collectSite {content out : Path} {name : String} {c : Collected} {root : Nat}
    (hentries : (Entry.folder entries).Proper)
    (h : collectSite site content out name (.ok entries) = .ok (c, root)) :
    Faithful site content out name entries c root := by
  obtain ⟨ids, places, ht, ⟨⟨d, hd, rfl⟩, hids⟩, hrootOf, hcollects, hcopies, hpages⟩ :=
    of_collectSite_eq_ok h
  constructor
  case document => exact ⟨d, hd, rfl⟩
  case page_of_file =>
    intro dirs stem bytes hvisible hfile
    have hstem := ne_empty_of_isVisible hvisible (by decide)
    obtain ⟨around, hbelow⟩ := (exists_fileBelow_iff hentries).mpr ⟨hvisible, hfile⟩
    obtain ⟨id, p, hdown, hitem, hpage⟩ := (hcollects.exists_descend? ht
      (extensionOf_eq_md_iff.mpr ⟨stem, hstem, rfl⟩) hbelow).2 root hids
    have hat := ((fileBelow_iff hentries).mp hbelow).2.1
    rw [(append_extension stem).1, stemOf_append hstem (by decide)] at hdown hpage
    refine ⟨id, p, ?_, hitem, hpage.template, ?_⟩
    · exact (Tree.find_pathOf_eq_ok_iff hd
        (slash_not_mem_of_file? hentries (by rw [hfile]; rfl))).mpr hdown
    · rw [file?_eq_fileNamed? hat]
      exact hpage.context
  case file_of_page =>
    intro id p hp
    obtain ⟨r, item, names, hr, hitem, -, hdown⟩ := ht.exists_descend? (Tree.lt_size_of_item? hp)
    cases (hrootOf id (Tree.lt_size_of_item? hp)).symm.trans hr
    have hne : names ≠ [] := by
      rintro rfl
      cases hdown
      cases hp.symm.trans hd
    obtain ⟨dirs, stem, rfl, hvisible, hfile⟩ :=
      hcollects.exists_file?_of_page ht hentries hids hne hdown hp
    exact ⟨dirs, stem, hvisible, hfile,
      (Tree.find_pathOf_eq_ok_iff hd (slash_not_mem_of_file? hentries hfile)).mpr hdown⟩
  case distinct =>
    intro dirs stem dirs' stem' id hfile hfile' hfind hfind'
    have hdown := (Tree.find_pathOf_eq_ok_iff hd (slash_not_mem_of_file? hentries hfile)).mp hfind
    have hdown' :=
      (Tree.find_pathOf_eq_ok_iff hd (slash_not_mem_of_file? hentries hfile')).mp hfind'
    have hroot := Tree.lt_size_of_item? hd
    obtain ⟨-, -, hnames⟩ := ht.of_descend?_eq_some hdown hroot
    obtain ⟨-, -, hnames'⟩ := ht.of_descend?_eq_some hdown' hroot
    obtain ⟨hdirs, hstem⟩ :=
      List.append_inj' (List.append_cancel_left (hnames.symm.trans hnames')) rfl
    exact ⟨hdirs, List.singleton_inj.mp hstem⟩
  case copies =>
    exact ⟨places, hcollects.nodup_places hentries, hcopies,
      fun dirs file => hcollects.mem_places_iff_file? hentries⟩
  case sources =>
    rw [hcopies]
    exact hcollects.nodup_sources hentries content out
  case rootOf => exact hrootOf
  case pages => exact hpages
  case rendered =>
    intro o fresh dir d n d' hdone
    exact (ht.eq_of_renderInto_eq_ok hd hrootOf hdone).trans hpages.symm

/-- A site with a page that has a context, a folder of pages, and a folder without them. -/
theorem faithful_collectSite_nested :
    let entries : List (String × Entry) :=
      [(".draft.md", .file "".toUTF8), ("about.json", .file "{}".toUTF8),
        ("about.md", .file "# About".toUTF8),
        ("guide", .folder [("data.json", .file "".toUTF8), ("index.md", .file "".toUTF8)]),
        ("img?", .folder [("logo.svg", .file "".toUTF8)]), ("index.md", .file "# Home".toUTF8)]
    ∃ c root, (Entry.folder entries).Proper ∧
      collectSite .empty ⟨"content"⟩ ⟨"public"⟩ "main" (.ok entries) = .ok (c, root) ∧
      (c.pages, c.copies.map (·.2.text)) = (3, ["public/guide/data.json", "public/img/logo.svg"]) ∧
      Faithful .empty ⟨"content"⟩ ⟨"public"⟩ "main" entries c root := by
  intro entries
  have hproper : (Entry.folder entries).Proper := by
    refine .folder (by decide) (by decide) ?_
    simp only [entries, List.forall_mem_cons, List.not_mem_nil, false_implies, implies_true,
      and_true]
    exact ⟨.file _, .file _, .file _,
      .folder (by decide) (by decide) (by simp [Entry.Proper.file]),
      .folder (by decide) (by decide) (by simp [Entry.Proper.file]), .file _⟩
  have hrun : ((collectSite .empty ⟨"content"⟩ ⟨"public"⟩ "main" (.ok entries)).toOption.map
      fun found => (found.1.pages, found.1.copies.map (·.2.text))) =
      some (3, ["public/guide/data.json", "public/img/logo.svg"]) := by decide +kernel
  obtain ⟨⟨c, root⟩, hfound, hfacts⟩ := Option.map_eq_some_iff.mp hrun
  have hsite := toOption_eq_some_iff.mp hfound
  exact ⟨c, root, hproper, hsite, hfacts, faithful_collectSite hproper hsite⟩

end PageLoom
