import PageLoom.Proofs.Site.Intact
import PageLoom.Proofs.Site.Loaded
import PageLoom.Proofs.Tree.Written

/-!
# One article and one page

An article that is rendered by itself is put together apart from the pages of a site.  If the site
has no title and makes nothing smaller, and the article calls no `link`, both come to the same
(`renderSingle_agrees`): the site writes the markup of the article to the file of the page
(`Begun.Writes`), or the calls of the page that fail are the errors of both (`Begun.Fails`).

What becomes of the site as a whole hangs on the page if all other pages render and the disk refuses
nothing (`Begun.HangsOn`).
-/

namespace PageLoom

namespace Begun

variable {c : Config} {fresh : Fresh} {desk : Desk} (b : Begun c desk)

/-! ## One page among others -/

/-- Whether the pages are rendered hangs on one of them: all others render, and the disk refuses
nothing. -/
structure HangsOn (fresh : Fresh) (id : Nat) : Prop where
  others : ∀ id' p, id' ≠ id → b.site.tree.item? id' = some (.page p) → ∃ f,
    (b.site.tree.pageNode (c.renderOptions b.markers) id' p).render (fresh.below id') = .ok f
  accepted : Tree.NotRefused (b.rendering fresh).1

theorem fst_rendering_of_hangsOn (h : desk.disk.Proper) {id : Nat} {p : Page}
    (hp : b.site.tree.item? id = some (.page p)) (hon : b.HangsOn fresh id) :
    match (b.site.tree.pageNode (c.renderOptions b.markers) id p).render (fresh.below id) with
    | .ok _ => ∃ n, (b.rendering fresh).1 = .ok n
    | .error errors => (b.rendering fresh).1 = .error (.output (b.file id) (.calls errors)) := by
  obtain ⟨steps, hsteps, hrendering⟩ := b.exists_steps h
  have hm := b.mem_steps h hsteps hp
  obtain ⟨hothers, haccepted⟩ := hon
  rw [hrendering] at haccepted ⊢
  rcases hrun : b.site.tree.takeAll (c.renderOptions b.markers) fresh steps b.prepared.disk with
    ⟨e | n, d⟩
  · rw [hrun] at haccepted
    obtain ⟨path, id', p', errors, hm', hfails, rfl⟩ | ⟨path, q, err, rfl⟩ :=
      Tree.of_takeAll_eq_error hrun
    · obtain ⟨-, hp', rfl⟩ := (hsteps.mem_iff path id' p').mp hm'
      by_cases hid : id' = id
      · subst hid
        cases hp.symm.trans hp'
        rw [hfails]
      · obtain ⟨f, hf⟩ := hothers id' p' hid hp'
        cases hfails.symm.trans hf
    · exact absurd rfl (haccepted path q err)
  · obtain ⟨f, hf⟩ := Tree.allRender_of_takeAll_eq_ok hrun (b.file id) id p hm
    rw [hf]
    exact ⟨n, rfl⟩

/-- In a build that has succeeded, all pages have rendered, and so all but one have. -/
theorem hangsOn_of_built {desk' : Desk} {n : Nat} (whole : Built c fresh desk desk' n)
    (h : desk.disk.Proper) (id : Nat) : whole.begun.HangsOn fresh id where
  others := fun id' p _ hp => by
    obtain ⟨steps, hsteps, hrendering⟩ := whole.begun.exists_steps h
    exact Tree.allRender_of_takeAll_eq_ok ((hrendering fresh).symm.trans whole.render) _ id' p
      (whole.begun.mem_steps h hsteps hp)
  accepted := fun path q e he => by
    cases (congrArg Prod.fst whole.render).symm.trans he

/-- A build fails if its pages cannot be rendered. -/
theorem fst_buildSite_of_error {e : RenderError} (h : (b.rendering fresh).1 = .error e) :
    (c.buildSite fresh desk).1 = .error (.rendering e) := by
  have hrun : b.rendering fresh = (.error e, (b.rendering fresh).2) := Prod.ext h rfl
  rw [rendering] at hrun
  rw [Config.buildSite, Noted.bind_apply, b.prepare]
  dsimp only
  rw [Noted.bind_apply, Noted.look, b.collect]
  dsimp only
  rw [Noted.bind_apply, Noted.note]
  dsimp only
  rw [Noted.bind_apply, Noted.look, b.mark]
  dsimp only [Except.mapError]
  rw [Noted.bind_apply, Noted.work, hrun]

/-! ## What becomes of a page -/

/-- The site has some markup for a page. -/
structure Writes (fresh : Fresh) (id : Nat) (markup : String) : Prop where
  /-- To make the page is to write the markup to its file. -/
  step : ∀ p d, b.site.tree.item? id = some (.page p) →
    b.site.tree.take (c.renderOptions b.markers) fresh (.page (b.file id) id p) d =
      match writeFile (b.file id) markup d with
      | (.ok (), d') => (.ok 1, d')
      | (.error e, d') => (.error (.output (b.file id) e), d')
  /-- If all hangs on the page, all pages are made.  Then the markup is in the file of the page,
  unless another page goes there. -/
  rendered : b.HangsOn fresh id → ∃ n d, b.rendering fresh = (.ok n, d) ∧
    (b.IsAlone id → d.read (b.file id) = .ok markup.toUTF8)
  /-- After a build that succeeds, the markup is in the file of the page, unless something that is
  made later goes there. -/
  built : Separate (desk.disk.placeOf c.build.output) (desk.disk.placeOf c.build.assets) →
    ∀ n desk' (whole : Built c fresh desk desk' n), whole.StaysInside →
      whole.IsLast (.page id) → desk'.disk.read (b.file id) = .ok markup.toUTF8

/-- The site has no markup for a page, because some calls fail. -/
structure Fails (fresh : Fresh) (id : Nat) (errors : List SpanError) : Prop where
  /-- To make the page is to fail. -/
  step : ∀ p d, b.site.tree.item? id = some (.page p) →
    b.site.tree.take (c.renderOptions b.markers) fresh (.page (b.file id) id p) d =
      (.error (.output (b.file id) (.calls errors)), d)
  /-- If all hangs on the page, the build fails. -/
  built : b.HangsOn fresh id →
    (c.buildSite fresh desk).1 = .error (.rendering (.output (b.file id) (.calls errors)))

variable {id : Nat} {p : Page}

theorem writes_of_render (h : desk.disk.Proper) (hminify : c.build.minify = false)
    {f : Fragment} (hp : b.site.tree.item? id = some (.page p))
    (hf : (b.site.tree.pageNode (c.renderOptions b.markers) id p).render (fresh.below id) = .ok f) :
    b.Writes fresh id f.markup := by
  constructor
  case step =>
    intro p' d hp'
    cases hp.symm.trans hp'
    have htake : b.site.tree.take _ _ (.page (b.file id) id p) d = _ := Tree.take_page_of_ok hf d
    rwa [finishMarkup, if_neg (by simp [Config.renderOptions, hminify])] at htake
  case rendered =>
    intro hon
    have hdecides := b.fst_rendering_of_hangsOn h hp hon
    rw [hf] at hdecides
    obtain ⟨n, hn⟩ := hdecides
    have hrun : b.rendering fresh = (.ok n, (b.rendering fresh).2) := Prod.ext hn rfl
    refine ⟨n, _, hrun, fun halone => ?_⟩
    obtain ⟨f', bytes, hf', hpage, hread⟩ := b.read_rendered h hrun hp halone
    cases hf.symm.trans hf'
    rw [hread, hpage.plain hminify]
  case built =>
    intro hassets n desk' whole hinside hlast
    cases Subsingleton.elim b whole.begun
    obtain ⟨bytes, ⟨p', f', hp', hf', hpage⟩, hread⟩ :=
      whole.arrives_page h hinside hassets ⟨p, hp⟩ hlast
    cases hp.symm.trans hp'
    cases hf.symm.trans hf'
    rw [whole.target_page h hp, hpage.plain hminify] at hread
    exact hread

theorem fails_of_render (h : desk.disk.Proper) {errors : List SpanError}
    (hp : b.site.tree.item? id = some (.page p))
    (hf : (b.site.tree.pageNode (c.renderOptions b.markers) id p).render (fresh.below id) =
      .error errors) : b.Fails fresh id errors := by
  constructor
  case step =>
    intro p' d hp'
    cases hp.symm.trans hp'
    exact Tree.take_page_of_error hf d
  case built =>
    intro hon
    have hdecides := b.fst_rendering_of_hangsOn h hp hon
    rw [hf] at hdecides
    exact b.fst_buildSite_of_error hdecides

end Begun

/-! ## Agreement -/

/-- Let two files hold what a page of a site was loaded from.  If none of its calls fail, rendering
the article in these files gives the markup that the site writes for the page.  Otherwise both fail,
with the errors of all calls that do. -/
theorem renderSingle_agrees {c : Config} {desk desk₂ : Desk} (b : Begun c desk) (fresh : Fresh)
    {id : Nat} {p : Page} {file companion : Path} (hproper : desk.disk.Proper)
    (htitle : c.site.title = "") (hminify : c.build.minify = false)
    (hp : b.site.tree.item? id = some (.page p)) (hlink : ¬ Calls b.markers p.template "link")
    (hfiles : p.InFiles desk₂.disk file companion) :
    (p.failures b.markers (fresh.below id) = [] → ∃ markup,
      (c.renderSingle (fresh.below id) file companion desk₂).1 = .ok markup ∧
      b.Writes fresh id markup) ∧
    (p.failures b.markers (fresh.below id) ≠ [] →
      (c.renderSingle (fresh.below id) file companion desk₂).1 =
        .error (.calls (p.failures b.markers (fresh.below id))) ∧
      b.Fails fresh id (p.failures b.markers (fresh.below id))) := by
  obtain ⟨hok, herror⟩ := render_pageNode_of_failures c b.site.tree id hlink (fresh.below id)
  rw [renderSingle_eq (isLoaded_of_collect b.collect hp) htitle b.mark hlink hfiles b.site.tree id]
  constructor
  · intro hnone
    obtain ⟨f, hf⟩ := hok hnone
    rw [hf]
    exact ⟨f.markup, rfl, b.writes_of_render hproper hminify hp hf⟩
  · intro hsome
    rw [herror hsome]
    exact ⟨rfl, b.fails_of_render hproper hp (herror hsome)⟩

/-- A page with a table, next to another page. -/
theorem renderSingle_agrees_table :
    let desk : Desk := ⟨⟨.folder [("content", .folder [("about.md", .file "# About".toUTF8),
      ("index.md", .file "# Hi\n\n%$ table(rows = [[1]]) $%".toUTF8)]),
      ("data.json", .file "{}".toUTF8)], []⟩, []⟩
    ∃ (b : Begun {} desk) (p : Page) (markup : String), desk.disk.Proper ∧
      b.site.tree.item? 1 = some (.page p) ∧ ¬ Calls b.markers p.template "link" ∧
      p.InFiles desk.disk ⟨"content/index.md"⟩ ⟨"data.json"⟩ ∧
      p.failures b.markers ((Fresh.ofSeed 7).below 1) = [] ∧
      (({} : Config).renderSingle ((Fresh.ofSeed 7).below 1) ⟨"content/index.md"⟩ ⟨"data.json"⟩
        desk).1 = .ok markup ∧
      b.Writes (Fresh.ofSeed 7) 1 markup ∧ b.HangsOn (Fresh.ofSeed 7) 1 ∧ b.IsAlone 1 := by
  intro desk
  have hproper : desk.disk.Proper := by
    refine ⟨.folder (by decide) (by decide) ?_, by decide⟩
    simp only [List.forall_mem_cons, List.not_mem_nil, false_implies, implies_true, and_true]
    exact ⟨.folder (by decide) (by decide) (by simp [Entry.Proper.file]), .file _⟩
  have hrun : (({} : Config).buildSite (Fresh.ofSeed 7) desk).1.toOption = some 2 := by
    decide +kernel
  have hsite : ((({} : Config).collect (({} : Config).prepareOutput desk).2.disk).toOption.map
      fun found => (found.1.tree.pageIds,
        ((found.1.tree.item? 1).bind Item.page?).map fun p =>
          (p.name, p.template, p.context.entries.length),
        (found.1.tree.entriesFrom found.2 0).tail, (found.1.tree.entriesFrom found.2 1).tail)) =
      some ([0, 1], some ("index", "# Hi\n\n%$ table(rows = [[1]]) $%", 0), ["about.html"],
        ["index.html"]) := by decide +kernel
  have hcalls : (({} : Config).markers.toOption.map fun m =>
      (decide (Calls m "# Hi\n\n%$ table(rows = [[1]]) $%" "link"),
        (process .builtin .empty m ((((Fresh.ofSeed 7).below 1).below 0).below 0)
          "# Hi\n\n%$ table(rows = [[1]]) $%").errors)) = some (false, []) := by
    decide +kernel
  have htemplate : (desk.disk.readText ⟨"content/index.md"⟩).toOption =
      some "# Hi\n\n%$ table(rows = [[1]]) $%" := by decide +kernel
  have hcontext : (readContext desk.disk ⟨"data.json"⟩).toOption.map
      (fun context => context.entries.length) = some 0 := by decide +kernel
  obtain ⟨desk', hdone⟩ := exists_eq_ok hrun
  obtain ⟨whole⟩ := exists_built hdone
  rw [congrArg Prod.snd whole.prepare, whole.collect] at hsite
  rw [whole.mark] at hcalls
  simp only [Except.toOption, Option.map_some, Option.some_inj, Prod.mk.injEq] at hsite hcalls
  obtain ⟨hpages, hpage, habout, hindex⟩ := hsite
  obtain ⟨p, hp⟩ := Tree.mem_pageIds.mp (hpages ▸ by decide : 1 ∈ whole.site.tree.pageIds)
  rw [hp] at hpage
  simp only [Option.bind_some, Item.page?, Option.map_some, Option.some_inj,
    Prod.mk.injEq] at hpage
  obtain ⟨hname, htext, hlength⟩ := hpage
  have empty : ∀ {context : Context}, context.entries.length = 0 → context = .empty :=
    fun h => NameMap.ext_get? fun name => by
      rw [NameMap.get?, List.length_eq_zero_iff.mp h]
      rfl
  obtain ⟨context, hread, hnone⟩ := Option.map_eq_some_iff.mp hcontext
  have hfiles : p.InFiles desk.disk ⟨"content/index.md"⟩ ⟨"data.json"⟩ := by
    refine ⟨toOption_eq_some_iff.mp (by rw [htemplate, htext]), by rw [hname]; decide, ?_⟩
    rw [toOption_eq_some_iff.mp hread, empty hnone, empty hlength]
  have hlink : ¬ Calls whole.markers p.template "link" := by
    rw [htext]
    exact of_decide_eq_false hcalls.1
  have hfailures : p.failures whole.markers ((Fresh.ofSeed 7).below 1) = [] := by
    rw [Page.failures, htext, empty hlength]
    exact hcalls.2
  have halone : whole.begun.IsAlone 1 := fun id p' hp' heq => by
    have hid : id ∈ whole.site.tree.pageIds := Tree.mem_pageIds.mpr ⟨p', hp'⟩
    rw [hpages, List.mem_pair] at hid
    refine hid.resolve_left ?_
    rintro rfl
    have hzero : whole.begun.file 0 = _ := congrArg (Path.joinAll ⟨"public"⟩) habout
    have hone : whole.begun.file 1 = _ := congrArg (Path.joinAll ⟨"public"⟩) hindex
    rw [hzero, hone] at heq
    exact absurd heq (by decide)
  obtain ⟨markup, hmarkup, hwrites⟩ :=
    (renderSingle_agrees whole.begun (Fresh.ofSeed 7) hproper rfl rfl hp hlink hfiles).1 hfailures
  exact ⟨whole.begun, p, markup, hproper, hp, hlink, hfiles, hfailures, hmarkup, hwrites,
    Begun.hangsOn_of_built whole hproper 1, halone⟩

end PageLoom
