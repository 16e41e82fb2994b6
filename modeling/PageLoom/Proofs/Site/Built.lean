import PageLoom.Proofs.Site.Copies
import PageLoom.Proofs.Site.Faithful
import PageLoom.Proofs.Tree.Inside

/-!
# The steps of a build

A build that succeeds has gone through all of its steps: the output folder is prepared, the content
is collected, the pages are rendered, and then the assets and the other files of the content are
copied (`Built`, `exists_built`).  Each step leads from a proper disk to a proper one, and relative
paths start in the same folder on all of them.

A build that comes as far as to its pages (`Begun`) does so in one way.  It makes every page once,
and if that succeeds, the file of a page holds it, unless another page goes to the same place
(`Begun.read_rendered`).
-/

namespace PageLoom

/-! ## Proper disks along the way -/

theorem Disk.Proper.makeFolderOf {d d' : Disk} (h : d.Proper) {p : Path} {r : Except DiskError Unit}
    (hmade : d.makeFolderOf p = (r, d')) : d'.Proper := by
  rw [Disk.makeFolderOf] at hmade
  split at hmade
  next => exact h.makeFolders hmade
  next =>
    cases hmade
    exact h

theorem proper_writeFile {d : Disk} (h : d.Proper) (p : Path) (content : String) :
    (writeFile p content d).2.Proper := by
  rcases snd_writeFile p content d with hwritten | ⟨d₁, hmade, hwrite⟩
  · rw [hwritten]
    exact h.makeFolderOf rfl
  · exact (h.makeFolderOf hmade).write hwrite

namespace Tree

variable {t : Tree} {o : RenderOptions} {fresh : Fresh}

theorem proper_take {d : Disk} (h : d.Proper) (s : Step) : (t.take o fresh s d).2.Proper := by
  cases s with
  | folder path =>
      rw [snd_take_folder]
      exact h.makeFolders rfl
  | page path id p =>
      rcases snd_take_page t o fresh path id p d with hkept | ⟨content, hwritten⟩
      · rwa [hkept]
      · rw [hwritten]
        exact proper_writeFile h path content

/-- Whatever steps are taken, the disk they leave is proper. -/
theorem proper_takeAll {d : Disk} (h : d.Proper) (steps : List Step) :
    (t.takeAll o fresh steps d).2.Proper :=
  takeAll_frame (I := fun _ => True) (R := fun a b => a.Proper → b.Proper) (fun _ h => h)
    (fun _ _ _ hab hbc ha => hbc (hab ha)) (fun _ _ _ _ => trivial)
    (fun s _ _ _ ha => proper_take ha s) trivial h

end Tree

/-! ## The steps of a build -/

/-- What has been prepared differs only at and below the output folder. -/
theorem of_prepareOutput_eq_ok {c : Config} {desk desk₁ : Desk}
    (h : c.prepareOutput desk = (.ok (), desk₁)) : desk₁.disk.here = desk.disk.here ∧
      (desk.disk.Proper → desk₁.disk.Proper) ∧
      (∀ place, ¬ desk.disk.placeOf c.build.output <+: place →
        desk₁.disk.fileAt place = desk.disk.fileAt place) ∧
      ∀ p, desk.disk.hasFolder p = true → ".." ∉ p.segments →
        ¬ desk.disk.placeOf c.build.output <+: desk.disk.placeOf p →
        desk₁.disk.hasFolder p = true := by
  have hmake : ∀ {desk₀ : Desk}, Noted.work (Work.makeFolders c.build.output id)
      (.cannotMake c.build.output) desk₀ = (.ok (), desk₁) → desk₀.disk.Grows desk₁.disk ∧
      (desk₀.disk.Proper → desk₁.disk.Proper) ∧
      ∀ place, desk₁.disk.fileAt place = desk₀.disk.fileAt place := fun hmade => by
    have hfolders := Noted.of_makeFolders_eq_ok hmade
    exact ⟨Disk.grows_makeFoldersFrom hfolders, fun hproper => hproper.makeFolders hfolders,
      Disk.fileAt_makeFolders hfolders⟩
  unfold Config.prepareOutput at h
  obtain ⟨found, desk₀, hlook, h⟩ := Noted.of_bind_eq_ok h
  cases hlook
  split at h
  next =>
    obtain ⟨⟨⟩, desk₂, hremoved, h⟩ := Noted.of_bind_eq_ok h
    obtain ⟨⟨⟩, desk₃, hnote, h⟩ := Noted.of_bind_eq_ok h
    cases hnote
    have hremove := Noted.of_change_eq_ok hremoved
    obtain ⟨hgrows, hproper, hfiles⟩ := hmake h
    refine ⟨hgrows.1.trans (Disk.here_removeFolder hremove),
      fun hd => hproper (hd.removeFolder hremove), fun place hplace => ?_,
      fun p hp hup hplace => hgrows.hasFolder (Disk.hasFolder_removeFolder hremove hp hup hplace)⟩
    rw [hfiles]
    exact Disk.fileAt_removeFolder hremove hplace
  next =>
    obtain ⟨hgrows, hproper, hfiles⟩ := hmake h
    exact ⟨hgrows.1, hproper, fun place _ => hfiles place, fun p hp _ _ => hgrows.hasFolder hp⟩

/-- The steps of a build that has succeeded. -/
structure Built (c : Config) (fresh : Fresh) (desk desk' : Desk) (n : Nat) where
  /-- After the output folder has been prepared. -/
  prepared : Desk
  site : Collected
  root : Nat
  markers : Markers
  /-- After the pages have been rendered. -/
  rendered : Desk
  /-- After the assets have been copied. -/
  assets : Desk
  /-- After the other files of the content have been copied. -/
  copied : Desk
  prepare : c.prepareOutput desk = (.ok (), prepared)
  collect : c.collect prepared.disk = .ok (site, root)
  mark : c.markers = .ok markers
  render : site.tree.renderInto (c.renderOptions markers) fresh root c.build.output prepared.disk =
    (.ok n, rendered.disk)
  copyAssets : copyFiles (copiesOf rendered.disk c.build.assets c.build.output) rendered =
    (.ok (), assets)
  copyOthers : copyFiles site.copies assets = (.ok (), copied)
  done : desk'.disk = copied.disk

/-- A build that ends well went through all its stages. -/
theorem exists_built {c : Config} {fresh : Fresh} {desk desk' : Desk} {n : Nat}
    (h : c.buildSite fresh desk = (.ok n, desk')) : Nonempty (Built c fresh desk desk' n) := by
  unfold Config.buildSite at h
  obtain ⟨⟨⟩, prepared, hprepare, h⟩ := Noted.of_bind_eq_ok h
  obtain ⟨⟨site, root⟩, desk₁, hcollect, h⟩ := Noted.of_bind_eq_ok h
  obtain ⟨⟨⟩, desk₂, hnote, h⟩ := Noted.of_bind_eq_ok h
  obtain ⟨m, desk₃, hmark, h⟩ := Noted.of_bind_eq_ok h
  obtain ⟨pages, rendered, hrender, h⟩ := Noted.of_bind_eq_ok h
  obtain ⟨listed, desk₄, hlisted, h⟩ := Noted.of_bind_eq_ok h
  obtain ⟨⟨⟩, assets, hassets, h⟩ := Noted.of_bind_eq_ok h
  obtain ⟨⟨⟩, copied, hcopies, h⟩ := Noted.of_bind_eq_ok h
  obtain ⟨⟨⟩, desk₅, hlast, h⟩ := Noted.of_bind_eq_ok h
  cases h
  obtain ⟨hsite, rfl⟩ := Prod.mk.inj hcollect
  cases hnote
  obtain ⟨hm, rfl⟩ := Prod.mk.inj hmark
  cases hlisted
  cases hlast
  have hrun := Noted.of_work_eq_ok hrender
  exact ⟨⟨prepared, site, root, m, rendered, assets, copied, hprepare, hsite,
    mapError_eq_ok_iff.mp hm, hrun, hassets, hcopies, rfl⟩⟩

/-! ## What has been collected -/

/-- What has been collected comes from the folder of the content. -/
theorem of_collect_eq_ok {c : Config} {d : Disk} {site : Collected} {root : Nat}
    (hproper : d.Proper) (h : c.collect d = .ok (site, root)) :
    site.tree.WellFormed (fun _ => True) ∧ (∃ doc, site.tree.item? root = some (.document doc)) ∧
      site.tree.parent? root = none ∧ (∀ id, id < site.tree.size → root ∈ site.tree.climb id) ∧
      ∀ x ∈ site.copies, ∃ names, names ≠ [] ∧
        (∀ name ∈ names, IsEntryName name ∧ name ≠ "." ∧ name ≠ "..") ∧
        x.1 = c.build.content.joinAll names := by
  obtain ⟨context, -, h⟩ := bind_eq_ok_iff.mp h
  obtain ⟨entries, hlisted, hentries⟩ : ∃ entries, c.listContent d = .ok entries ∧
      (Entry.folder entries).Proper := by
    cases hlocate : d.locate c.build.content with
    | error e =>
        obtain ⟨doc, -, h⟩ := bind_eq_ok_iff.mp h
        rw [Config.listContent, hlocate] at h
        cases h
    | ok found =>
        obtain ⟨place, e⟩ := found
        refine ⟨e.entries, by rw [Config.listContent, hlocate]; rfl, ?_⟩
        have hat := Disk.at?_of_locate hlocate
        cases e with
        | file bytes => exact .folder .nil (List.forall_mem_nil _) (List.forall_mem_nil _)
        | folder entries => exact (hproper.top.at? hat).1
  rw [hlisted] at h
  obtain ⟨ids, places, ht, ⟨⟨doc, hdoc, -⟩, -⟩, hrootOf, hcollects, hcopies, -⟩ :=
    of_collectSite_eq_ok h
  refine ⟨ht, ⟨doc, hdoc⟩, (ht.root_of_rootOf (hrootOf root (Tree.lt_size_of_item? hdoc))).2,
    fun id hid => List.mem_of_getLast? (Tree.getLast?_climb (hrootOf id hid)), fun x hx => ?_⟩
  rw [hcopies] at hx
  obtain ⟨⟨dirs, file⟩, hplace, rfl⟩ := List.mem_map.mp hx
  have hfile := ((hcollects.mem_places_iff_file? hentries).mp hplace).2.1
  obtain ⟨bytes, hbytes⟩ := Option.isSome_iff_exists.mp hfile
  exact ⟨dirs ++ [file], by simp, (hentries.at? (Entry.file?_eq_some_iff.mp hbytes)).2, rfl⟩

/-! ## Builds that come to their pages -/

/-- A build that comes as far as to its pages. -/
structure Begun (c : Config) (desk : Desk) where
  /-- After the output folder has been prepared. -/
  prepared : Desk
  site : Collected
  root : Nat
  markers : Markers
  prepare : c.prepareOutput desk = (.ok (), prepared)
  collect : c.collect prepared.disk = .ok (site, root)
  mark : c.markers = .ok markers

namespace Begun

variable {c : Config} {fresh : Fresh} {desk : Desk} (b : Begun c desk)

instance : Subsingleton (Begun c desk) where
  allEq := by
    rintro ⟨prepared, site, root, m, hprepare, hcollect, hmark⟩
      ⟨prepared', site', root', m', hprepare', hcollect', hmark'⟩
    cases hprepare.symm.trans hprepare'
    cases hcollect.symm.trans hcollect'
    cases hmark.symm.trans hmark'
    rfl

/-- What comes of rendering the pages. -/
def rendering (fresh : Fresh) : Except RenderError Nat × Disk :=
  b.site.tree.renderInto (c.renderOptions b.markers) fresh b.root c.build.output b.prepared.disk

/-- The file of a page. -/
def file (id : Nat) : Path := c.build.output.joinAll (b.site.tree.entriesFrom b.root id).tail

/-- No other page goes to the place of a page. -/
def IsAlone (id : Nat) : Prop :=
  ∀ id' p, b.site.tree.item? id' = some (.page p) →
    desk.disk.placeOf (b.file id') = desk.disk.placeOf (b.file id) → id' = id

theorem here_prepared : b.prepared.disk.here = desk.disk.here :=
  (of_prepareOutput_eq_ok b.prepare).1

theorem proper_prepared (h : desk.disk.Proper) : b.prepared.disk.Proper :=
  (of_prepareOutput_eq_ok b.prepare).2.1 h

/-- Rendering takes steps that make all pages. -/
theorem exists_steps (h : desk.disk.Proper) : ∃ steps, b.site.tree.MakesPages b.root b.file steps ∧
    ∀ fresh, b.rendering fresh =
      b.site.tree.takeAll (c.renderOptions b.markers) fresh steps b.prepared.disk := by
  obtain ⟨ht, ⟨doc, hdoc⟩, -⟩ := of_collect_eq_ok (b.proper_prepared h) b.collect
  exact ⟨_, ht.makesPages_stepsBelow hdoc c.build.output fun k b _ hkb =>
    ht.makesPages_steps k b hkb c.build.output, fun fresh =>
    Tree.renderInto_eq (ht.branch?_of_document hdoc) _ _⟩

/-- Every page is among the steps that make all pages. -/
theorem mem_steps (h : desk.disk.Proper) {steps : List Step}
    (hsteps : b.site.tree.MakesPages b.root b.file steps) {id : Nat} {p : Page}
    (hp : b.site.tree.item? id = some (.page p)) : .page (b.file id) id p ∈ steps := by
  obtain ⟨-, -, -, hbelow, -⟩ := of_collect_eq_ok (b.proper_prepared h) b.collect
  exact (hsteps.mem_iff _ id p).mpr ⟨hbelow id (Tree.lt_size_of_item? hp), hp, rfl⟩

/-- Once all pages have been rendered, the file of a page that is alone holds it. -/
theorem read_rendered (h : desk.disk.Proper) {d : Disk} {n : Nat}
    (hrun : b.rendering fresh = (.ok n, d)) {id : Nat} {p : Page}
    (hp : b.site.tree.item? id = some (.page p)) (halone : b.IsAlone id) : ∃ f bytes,
      (b.site.tree.pageNode (c.renderOptions b.markers) id p).render (fresh.below id) = .ok f ∧
      Tree.IsPageFile (c.renderOptions b.markers) f bytes ∧
      d.read (b.file id) = .ok bytes := by
  obtain ⟨steps, hsteps, hrendering⟩ := b.exists_steps h
  rw [hrendering] at hrun
  obtain ⟨hgrows, hdone, -, -⟩ := Tree.of_takeAll_eq_ok hrun
  have hm := b.mem_steps h hsteps hp
  have hplace : ∀ path, d.placeOf path = desk.disk.placeOf path :=
    Disk.placeOf_of_here (hgrows.1.trans b.here_prepared)
  obtain ⟨f, place, hf, hlocate⟩ := Tree.content_of_takeAll hrun hm fun s hs heq => by
    rw [Step.place?_page (hdone _ hm)] at heq
    cases s with
    | folder path => cases heq
    | page path id' p' =>
        rw [Step.place?_page (hdone _ hs), hplace, hplace] at heq
        obtain ⟨-, hp', rfl⟩ := (hsteps.mem_iff path id' p').mp hs
        cases halone id' p' hp' (Option.some.inj heq)
        cases hp.symm.trans hp'
        rfl
  exact ⟨f, _, hf, Tree.isPageFile_pageBytes _ f, Disk.read_eq_ok_iff.mpr ⟨place, hlocate⟩⟩

end Begun

namespace Built

variable {c : Config} {fresh : Fresh} {desk desk' : Desk} {n : Nat}
  (b : Built c fresh desk desk' n)

/-- A build that has succeeded has come to its pages. -/
def begun : Begun c desk :=
  ⟨b.prepared, b.site, b.root, b.markers, b.prepare, b.collect, b.mark⟩

/-! ## Disks on the way -/

theorem here_prepared : b.prepared.disk.here = desk.disk.here := b.begun.here_prepared

theorem proper_prepared (h : desk.disk.Proper) : b.prepared.disk.Proper :=
  b.begun.proper_prepared h

/-- Rendering takes steps that make all pages. -/
theorem exists_steps (h : desk.disk.Proper) : ∃ steps,
    b.site.tree.MakesPages b.root
      (fun id => c.build.output.joinAll (b.site.tree.entriesFrom b.root id).tail) steps ∧
    b.site.tree.takeAll (c.renderOptions b.markers) fresh steps b.prepared.disk =
      (.ok n, b.rendered.disk) := by
  obtain ⟨steps, hsteps, hrendering⟩ := b.begun.exists_steps h
  exact ⟨steps, hsteps, (hrendering fresh).symm.trans b.render⟩

/-- Rendering removes nothing of what was prepared. -/
theorem grows_rendered (h : desk.disk.Proper) : b.prepared.disk.Grows b.rendered.disk := by
  obtain ⟨steps, -, hrun⟩ := b.exists_steps h
  exact (Tree.of_takeAll_eq_ok hrun).1

/-- A folder is still there if its path does not go up, and it is not below the output folder. -/
theorem hasFolder_rendered (h : desk.disk.Proper) {p : Path} (hp : desk.disk.hasFolder p = true)
    (hup : ".." ∉ p.segments)
    (hplace : ¬ desk.disk.placeOf c.build.output <+: desk.disk.placeOf p) :
    b.rendered.disk.hasFolder p = true :=
  (b.grows_rendered h).hasFolder ((of_prepareOutput_eq_ok b.prepare).2.2.2 p hp hup hplace)

/-- Paths lead to the same places after rendering as before the build. -/
theorem placeOf_rendered (h : desk.disk.Proper) (p : Path) :
    b.rendered.disk.placeOf p = desk.disk.placeOf p :=
  Disk.placeOf_of_here ((b.grows_rendered h).1.trans b.here_prepared) p

theorem placeOf_assets (h : desk.disk.Proper) (p : Path) :
    b.assets.disk.placeOf p = desk.disk.placeOf p :=
  (Disk.placeOf_of_here (of_copyFiles_eq_ok b.copyAssets).1.1 p).trans (b.placeOf_rendered h p)

theorem proper_rendered (h : desk.disk.Proper) : b.rendered.disk.Proper := by
  obtain ⟨steps, -, hrun⟩ := b.exists_steps h
  have hproper : (b.site.tree.takeAll (c.renderOptions b.markers) fresh steps
      b.prepared.disk).2.Proper := Tree.proper_takeAll (b.proper_prepared h) steps
  rwa [hrun] at hproper

end Built

end PageLoom
