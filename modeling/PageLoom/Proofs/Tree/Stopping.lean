import PageLoom.Proofs.Tree.Failing
import PageLoom.Proofs.Tree.Order
import PageLoom.Proofs.Tree.Written

/-!
# Rendering stops at the first page that fails

The pages below a node are rendered in order (`Tree.pagesInOrder`), and a page is rendered before
its file is written.  So if calls of some pages fail and the disk refuses nothing, rendering stops
at the first of these pages: it fails with all calls of this page that fail, the pages before it
have been written, and no other file has changed (`Tree.StopsAtFailure`).

This holds for the rendering of every node of every tree that is made of pages and documents as
they are constructed (`Tree.stopsOnFailure_make`).
-/

namespace PageLoom

namespace Tree

variable {P : Item → Prop} {t : Tree} {o : RenderOptions} {fresh : Fresh}

/-! ## What is there when rendering stops -/

/-- Between two disks, the pages `before` have been written to their paths, and the pages `rest`
have not. -/
structure WrittenBefore (t : Tree) (o : RenderOptions) (fresh : Fresh) (path : Nat → Path)
    (before rest : List Nat) (d d' : Disk) : Prop where
  /-- The files of the pages before hold them. -/
  written : ∀ k ∈ before, ∃ p f bytes, t.item? k = some (.page p) ∧
    (t.pageNode o k p).render (fresh.below k) = .ok f ∧ IsPageFile o f bytes ∧
    d'.locate (path k) = .ok (d.placeOf (path k), .file bytes)
  /-- All other files are as they were. -/
  unchanged : ∀ place, (∀ k ∈ before, place ≠ d.placeOf (path k)) →
    d'.fileAt place = d.fileAt place
  /-- Among them are the files of the other pages. -/
  untouched : ∀ k ∈ rest, d'.fileAt (d.placeOf (path k)) = d.fileAt (d.placeOf (path k))
  /-- What was there is there, a file or a folder as before. -/
  grows : d.Grows d'

/-- What `make` does if it renders pages in order: unless the disk refuses something, it stops at
the first page of which calls fail, with all of them, in the order of their spans. -/
def StopsAtFailure (t : Tree) (order : List Nat) (path : Nat → Path)
    (make : RenderOptions → Fresh → Work RenderError Nat) : Prop :=
  ∀ o fresh d, (∃ k ∈ order, t.failures o fresh k ≠ []) → NotRefused (make o fresh d).1 →
    ∃ before c after, order = before ++ c :: after ∧
      (∀ k ∈ before, t.failures o fresh k = []) ∧ t.failures o fresh c ≠ [] ∧
      (make o fresh d).1 = .error (.output (path c) (.calls (t.failures o fresh c))) ∧
      t.WrittenBefore o fresh path before (c :: after) d (make o fresh d).2

/-! ## Steps up to a page -/

/-- The first element with a property, and what is before and after it. -/
theorem exists_first {Q : Nat → Prop} [DecidablePred Q] {ks : List Nat} (h : ∃ k ∈ ks, Q k) :
    ∃ before c after, ks = before ++ c :: after ∧ (∀ k ∈ before, ¬ Q k) ∧ Q c := by
  obtain ⟨k, hk, hq⟩ := h
  obtain ⟨c, hc⟩ := Option.isSome_iff_exists.mp
    (List.find?_isSome.mpr ⟨k, hk, decide_eq_true hq⟩ : (ks.find? fun k => Q k).isSome)
  obtain ⟨hqc, before, after, rfl, hbefore⟩ := List.find?_eq_some_iff_append.mp hc
  exact ⟨before, c, after, rfl, fun b hb => by simpa using hbefore b hb, of_decide_eq_true hqc⟩

/-- Steps that make pages in order are cut at one of the pages. -/
theorem exists_cut {steps : List Step} {before after : List Nat} {c : Nat}
    (h : steps.filterMap Step.pageId? = before ++ c :: after) : ∃ front path p rest,
      steps = front ++ .page path c p :: rest ∧ front.filterMap Step.pageId? = before := by
  obtain ⟨front, back, rfl, hfront, hback⟩ := List.filterMap_eq_append_iff.mp h
  obtain ⟨folders, s, rest, rfl, hfolders, hs, -⟩ := List.filterMap_eq_cons_iff.mp hback
  cases s with
  | folder path => cases hs
  | page path c' p =>
      cases hs
      refine ⟨front ++ folders, path, p, rest, by rw [List.append_assoc], ?_⟩
      rw [List.filterMap_append, hfront, List.filterMap_eq_nil_iff.mpr hfolders, List.append_nil]

section Steps

variable {id : Nat} {dir : Path} {names : Nat → List String} {steps : List Step}

/-- Different pages have different places. -/
theorem TellsApart.eq_of_placeOf (hnames : t.TellsApart id names) {a b : Nat}
    (ha : a ∈ t.pagesBelow id) (hb : b ∈ t.pagesBelow id) {d : Disk}
    (h : d.placeOf (dir.join (pathOf (names a))) = d.placeOf (dir.join (pathOf (names b)))) :
    a = b := by
  rw [hnames.join_eq ha, hnames.join_eq hb, hnames.placeOf_joinAll ha,
    hnames.placeOf_joinAll hb] at h
  exact hnames.distinct a ha b hb (List.append_cancel_left h)

/-- The first steps, if they succeed, write their pages and none of those after them. -/
theorem MakesPages.writtenBefore (hnames : t.TellsApart id names) {front rest : List Step}
    (hsteps : t.MakesPages id (fun c => dir.joinAll (names c)) (front ++ rest)) {d d' : Disk}
    {n : Nat} (h : t.takeAll o fresh front d = (.ok n, d')) :
    t.WrittenBefore o fresh (fun c => dir.join (pathOf (names c)))
      (front.filterMap Step.pageId?) (rest.filterMap Step.pageId?) d d' := by
  obtain ⟨hgrows, hdone, -, hframe⟩ := of_takeAll_eq_ok h
  have hsame : ∀ p, d'.placeOf p = d.placeOf p := Disk.placeOf_of_here hgrows.1
  have hbelow : ∀ c ∈ (front ++ rest).filterMap Step.pageId?, c ∈ t.pagesBelow id :=
    fun c hc => hsteps.perm.mem_iff.mp hc
  have hnodup := hsteps.nodup
  rw [List.filterMap_append] at hbelow hnodup
  rw [List.forall_mem_append] at hbelow
  obtain ⟨hfront, -, happart⟩ := List.nodup_append.mp hnodup
  have hplaces : front.filterMap (Step.place? d') =
      (front.filterMap Step.pageId?).map fun c => d.placeOf (dir.join (pathOf (names c))) := by
    rw [hsteps.places_eq hnames (fun s hs => List.mem_append_left rest hs) hdone]
    refine List.map_congr_left fun c hc => ?_
    rw [hnames.join_eq (hbelow.1 c hc), hnames.placeOf_joinAll (hbelow.1 c hc), hsame]
  have unchanged : ∀ place, (∀ k ∈ front.filterMap Step.pageId?,
      place ≠ d.placeOf (dir.join (pathOf (names k)))) → d'.fileAt place = d.fileAt place := by
    intro place hne
    refine hframe place fun hm => ?_
    rw [hplaces] at hm
    obtain ⟨k, hk, rfl⟩ := List.mem_map.mp hm
    exact hne k hk rfl
  constructor
  case written =>
    intro k hk
    obtain ⟨s, hs, hid⟩ := List.mem_filterMap.mp hk
    cases s with
    | folder path => cases hid
    | page path k' p =>
        cases hid
        obtain ⟨-, hpage, rfl⟩ := (hsteps.mem_iff path k p).mp (List.mem_append_left rest hs)
        have hdistinct : (front.filterMap (Step.place? d')).Nodup := by
          rw [hplaces]
          exact hfront.map_on fun a ha b hb =>
            hnames.eq_of_placeOf (hbelow.1 a ha) (hbelow.1 b hb)
        obtain ⟨f, place, hf, hlocate⟩ := contents_of_takeAll h hdistinct _ k p hs
        refine ⟨p, f, _, hpage, hf, isPageFile_pageBytes o f, ?_⟩
        rw [hnames.join_eq (hbelow.1 k hk), hlocate, Disk.eq_placeOf_of_locate hlocate, hsame]
  case unchanged => exact unchanged
  case untouched =>
    intro k hk
    refine unchanged _ fun j hj heq => ?_
    exact happart j hj k hk (hnames.eq_of_placeOf (hbelow.2 k hk) (hbelow.1 j hj) heq).symm
  case grows => exact hgrows

/-- Steps that make the pages below a node stop at the first page of which calls fail. -/
theorem MakesPages.stopsAtFailure (hnames : t.TellsApart id names)
    (hsteps : t.MakesPages id (fun c => dir.joinAll (names c)) steps)
    {make : RenderOptions → Fresh → Work RenderError Nat}
    (hmake : ∀ o fresh d, make o fresh d = t.takeAll o fresh steps d) :
    t.StopsAtFailure (steps.filterMap Step.pageId?)
      (fun c => dir.join (pathOf (names c))) make := by
  intro o fresh d hfails haccepted
  obtain ⟨before, c, after, horder, hbefore, hc⟩ := exists_first hfails
  obtain ⟨front, path, p, rest, rfl, hfront⟩ := exists_cut horder
  obtain ⟨hbelow, hpage, hpath⟩ := (hsteps.mem_iff path c p).mp (by simp)
  have hback : (.page path c p :: rest : List Step).filterMap Step.pageId? = c :: after := by
    rw [List.filterMap_append, hfront] at horder
    exact List.append_cancel_left horder
  have hall : t.AllRender o fresh front := by
    intro place k q hm
    obtain ⟨-, hk, -⟩ := (hsteps.mem_iff place k q).mp (List.mem_append_left _ hm)
    have hmem : k ∈ before := hfront ▸ List.mem_filterMap.mpr ⟨_, hm, rfl⟩
    exact (failures_eq_nil_iff hk o fresh).mp (not_not.mp (hbefore k hmem))
  rw [hmake] at haccepted
  obtain ⟨n, d', hrun, hstop⟩ :=
    takeAll_stops hall ((render_pageNode_of_failures hpage o fresh).2 hc) haccepted
  have hwritten := hsteps.writtenBefore hnames hrun
  rw [hfront, hback] at hwritten
  rw [hmake, hstop]
  refine ⟨before, c, after, horder, fun k hk => not_not.mp (hbefore k hk), hc, ?_, hwritten⟩
  rw [hpath, ← hnames.join_eq (mem_pagesBelow.mpr ⟨hbelow, p, hpage⟩)]

end Steps

/-! ## Rendering -/

/-- What rendering a node does if pages below it fail. -/
structure StopsOnFailure (t : Tree) (id : Nat) : Prop where
  /-- The pages that children of children lead to are rendered in order, each of them once. -/
  mem_order : ∀ c, c ∈ t.pagesInOrder id ↔
    Relation.ReflTransGen (fun d k => k ∈ t.childrenOf d) id c ∧ ∃ p, t.item? c = some (.page p)
  nodup_order : (t.pagesInOrder id).Nodup
  order_page : ∀ p, t.item? id = some (.page p) → t.pagesInOrder id = [id]
  /-- Those below the index of a document come first, and then those below its other children. -/
  order_document : ∀ doc, t.item? id = some (.document doc) → ∃ index, t.indexOf? id = some index ∧
    t.pagesInOrder id = t.pagesInOrder index ++
      ((t.childrenOf id).filter fun c => c ≠ index).flatMap t.pagesInOrder
  /-- Rendering stops at the first page that fails. -/
  render : ∀ base, t.StopsAtFailure (t.pagesInOrder id)
    (fun c => base.join (pathOf (t.entriesFrom id c))) fun o fresh => t.render o fresh id base
  /-- So does rendering what is below a document. -/
  renderInto : ∀ doc, t.item? id = some (.document doc) → ∀ dir,
    t.StopsAtFailure (t.pagesInOrder id)
      (fun c => dir.join (pathOf (t.entriesFrom id c).tail)) fun o fresh =>
        t.renderInto o fresh id dir

theorem WellFormed.stopsOnFailure (h : t.WellFormed P)
    (hP : ∀ item, P item → IsPlainEntry item.entry) {id : Nat} (hid : id < t.size) :
    t.StopsOnFailure id := by
  constructor
  case mem_order =>
    intro c
    rw [(h.pagesInOrder_perm hid).mem_iff, mem_pagesBelow, h.mem_climb_iff hid]
  case nodup_order => exact (h.pagesInOrder_perm hid).nodup_iff.mpr (t.nodup_pagesBelow id)
  case order_page => exact fun p hp => pagesInOrder_page hp
  case order_document =>
    intro doc hd
    obtain ⟨index, p, hindex, -⟩ := h.exists_index hd
    refine ⟨index, hindex, ?_⟩
    rw [h.pagesInOrder_document hd, childrenInOrder_eq hindex, List.flatMap_cons]
  case render =>
    intro base
    obtain ⟨b, hb, -⟩ := h.exists_branch? hid
    rw [← h.pageIds_steps id b hb base]
    exact (h.makesPages_steps id b hb base).stopsAtFailure (h.tellsApart_entriesFrom hP hid)
      fun _ _ => render_eq hb base
  case renderInto =>
    intro doc hd dir
    have hsteps := h.makesPages_stepsBelow hd dir fun k b _ hkb => h.makesPages_steps k b hkb dir
    rw [← h.pageIds_stepsBelow hd dir fun k b _ hkb => h.pageIds_steps k b hkb dir]
    exact hsteps.stopsAtFailure (h.tellsApart_tail_entriesFrom hP hd) fun _ _ =>
      renderInto_eq (h.branch?_of_document hd) dir

/-- Rendering stops at the first page that fails in a tree of pages and documents as they are
constructed. -/
theorem stopsOnFailure_make {changes : List Change} (h : ∀ c ∈ changes, c.Constructed) {id : Nat}
    (hid : id < (make changes).size) : (make changes).StopsOnFailure id :=
  (wellFormed_make fun c hc => (h c hc).adds).stopsOnFailure (fun _ hplain => hplain) hid

/-- A document whose index is rendered before a page with two calls that fail. -/
theorem stopsOnFailure_make_second : ∃ broken index later root d',
    Page.ofName? "p1" "%$ a() $% and %$ b() $%" = .ok broken ∧
    Page.ofName? "index" "" = .ok index ∧ Page.ofName? "p2" "" = .ok later ∧
    Document.ofName? "main" = .ok root ∧
    let t := make [.page broken, .page index, .page later, .document root [0, 1, 2]]
    let o : RenderOptions := ⟨.empty, .standard, false, "en", none, []⟩
    let path := fun c => Path.join ⟨"out"⟩ (pathOf (t.entriesFrom 3 c))
    t.pagesInOrder 3 = [1, 0, 2] ∧ t.entriesFrom 3 0 = ["main", "p1.html"] ∧
    (t.failures o (Fresh.ofSeed 7) 0).map SpanError.source = ["a()", "b()"] ∧
    t.render o (Fresh.ofSeed 7) 3 ⟨"out"⟩ {} =
      (.error (.output (path 0) (.calls (t.failures o (Fresh.ofSeed 7) 0))), d') ∧
    t.WrittenBefore o (Fresh.ofSeed 7) path [1] [0, 2] {} d' := by
  have hbroken := @Page.Made.ofName "p1" "%$ a() $% and %$ b() $%" _ rfl
  have hindex := @Page.Made.ofName "index" "" _ rfl
  have hlater := @Page.Made.ofName "p2" "" _ rfl
  have hroot := @Document.Made.ofName "main" _ rfl
  have hstops := @stopsOnFailure_make
    [.page _, .page _, .page _, .document _ [0, 1, 2]]
    (by
      intro c hc
      simp only [List.mem_cons, List.not_mem_nil, or_false] at hc
      rcases hc with rfl | rfl | rfl | rfl
      · exact hbroken
      · exact hindex
      · exact hlater
      · exact ⟨hroot, by decide, by decide⟩)
    3 (by decide)
  obtain ⟨before, c, after, horder, hbefore, hc, hresult, hwritten⟩ :=
    hstops.render ⟨"out"⟩ ⟨.empty, .standard, false, "en", none, []⟩ (Fresh.ofSeed 7) {}
      (by decide +kernel) (by decide +kernel)
  have hlist : before ++ c :: after = [1, 0, 2] := by
    rw [← horder]
    decide +kernel
  rcases before with _ | ⟨a, _ | ⟨b, before⟩⟩
  · cases hlist
    exact absurd (by decide +kernel) hc
  · cases hlist
    exact ⟨_, _, _, _, _, rfl, rfl, rfl, rfl, by decide +kernel, by decide +kernel,
      by decide +kernel, Prod.ext hresult rfl, hwritten⟩
  · obtain ⟨rfl, -⟩ := List.cons.inj (List.cons.inj hlist).2
    exact absurd (hbefore 0 (by simp)) (by decide +kernel)

end Tree

end PageLoom
