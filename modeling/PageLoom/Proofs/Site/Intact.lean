import PageLoom.Proofs.Site.Built

/-!
# What a build leaves behind

A build makes pages, copies of assets, and copies of other files of the content, one after the
other, and nothing keeps two of them from going to the same place.  What is made later wins.

So all that a build makes is there in the end if nothing that is made later, or in the same step,
goes to the same place (`intact_buildSite`).  For this, all of it has to go below the output folder,
and that folder has to be separate from those of the content and the assets.  Then what is copied
is the same throughout.
-/

namespace PageLoom

/-! ## Separate folders -/

/-- Neither of two places is the other one, or below it. -/
def Separate (a b : List String) : Prop := ¬ a <+: b ∧ ¬ b <+: a

instance (a b : List String) : Decidable (Separate a b) := inferInstanceAs (Decidable (_ ∧ _))

theorem Separate.not_prefix {a b : List String} (h : Separate a b) (names : List String) :
    ¬ a <+: b ++ names := fun hpre =>
  (List.prefix_or_prefix_of_prefix hpre (List.prefix_append b names)).elim h.1 h.2

/-! ## What a build makes -/

/-- A page, the copy of an asset, or the copy of another file. -/
inductive Output
  | page (id : Nat)
  | asset (names : List String)
  | copy (source target : Path)

/-- Pages are rendered first.  Then assets are copied, and then the other files. -/
def Output.phase : Output → Nat
  | .page _ => 0
  | .asset _ => 1
  | .copy _ _ => 2

namespace Built

variable {c : Config} {fresh : Fresh} {desk desk' : Desk} {n : Nat}
  (b : Built c fresh desk desk' n)

/-- The pages, the files that were in the folder of the assets, and those to be copied. -/
def Makes : Output → Prop
  | .page id => ∃ p, b.site.tree.item? id = some (.page p)
  | .asset names => b.rendered.disk.hasFolder c.build.assets = true ∧
      (desk.disk.fileAt (desk.disk.placeOf c.build.assets ++ names)).isSome = true
  | .copy source target => (source, target) ∈ b.site.copies

/-- Where something goes.  A page goes to its path on disk, without the folder of the root. -/
def target : Output → Path
  | .page id =>
      match b.site.tree.physicalPath id with
      | .ok path => c.build.output.join (pathOf (segmentsOf path).tail)
      | .error _ => c.build.output
  | .asset names => c.build.output.join (pathOf names)
  | .copy _ target => target

/-- The place that something goes to. -/
def place (o : Output) : List String := desk.disk.placeOf (b.target o)

/-- What should be there: the page as it is rendered, or what was in the file before. -/
def Holds : Output → ByteArray → Prop
  | .page id, bytes => ∃ p f, b.site.tree.item? id = some (.page p) ∧
      (b.site.tree.pageNode (c.renderOptions b.markers) id p).render (fresh.below id) = .ok f ∧
      Tree.IsPageFile (c.renderOptions b.markers) f bytes
  | .asset names, bytes =>
      desk.disk.fileAt (desk.disk.placeOf c.build.assets ++ names) = some bytes
  | .copy source _, bytes => desk.disk.fileAt (desk.disk.placeOf source) = some bytes

/-- Without assets, pages and copies are made. -/
theorem makes_iff (h : ∀ names, ¬ b.Makes (.asset names)) (o : Output) : b.Makes o ↔
    (∃ id ∈ b.site.tree.pageIds, o = .page id) ∨ ∃ x ∈ b.site.copies, o = .copy x.1 x.2 := by
  cases o with
  | page id => simp [Makes, Tree.mem_pageIds]
  | asset names => simpa using h names
  | copy source target => simp [Makes]

/-- All that goes to the same place is made before. -/
def IsLast (o : Output) : Prop :=
  ∀ o', b.Makes o' → b.place o' = b.place o → o' = o ∨ o'.phase < o.phase

/-- All that is made goes below the output folder. -/
def StaysInside : Prop := ∀ o, b.Makes o → IsBelow (desk.disk.placeOf c.build.output) (b.place o)

/-- What should be there is there after the build. -/
def Arrives (o : Output) : Prop :=
  ∃ bytes, b.Holds o bytes ∧ desk'.disk.read (b.target o) = .ok bytes

/-- A page goes to the entries on the way down to it. -/
theorem target_page (h : desk.disk.Proper) {id : Nat} {p : Page}
    (hp : b.site.tree.item? id = some (.page p)) : b.target (.page id) =
      c.build.output.joinAll (b.site.tree.entriesFrom b.root id).tail := by
  obtain ⟨ht, ⟨doc, hdoc⟩, hroot, hbelow, -⟩ := of_collect_eq_ok (b.proper_prepared h) b.collect
  have hid := hbelow id (Tree.lt_size_of_item? hp)
  have hnames := ht.forall_entriesFrom (fun item _ => item.isEntryName_entry) b.root id
  rw [target, ht.physicalPath_of_page hp]
  dsimp only
  rw [ht.segmentsOf_entriesTo (Tree.lt_size_of_item? hp), ← ht.entriesFrom_of_root hroot hid]
  exact (Path.joinAll_eq (ht.tail_entriesFrom_ne_nil hdoc hp hid)
    fun name hname => hnames name (List.mem_of_mem_tail hname)).symm

/-- Rendering changes no file outside if all pages are below the output folder. -/
theorem fileAt_rendered (h : desk.disk.Proper) (hinside : b.StaysInside) {place : List String}
    (hplace : Separate (desk.disk.placeOf c.build.output) place) (names : List String) :
    b.rendered.disk.fileAt (place ++ names) = desk.disk.fileAt (place ++ names) := by
  obtain ⟨steps, hsteps, hrun⟩ := b.exists_steps h
  obtain ⟨-, hdone, -, hframe⟩ := Tree.of_takeAll_eq_ok hrun
  rw [hframe _ fun hm => ?_, (of_prepareOutput_eq_ok b.prepare).2.2.1 _ (hplace.not_prefix names)]
  obtain ⟨s, hs, hspot⟩ := List.mem_filterMap.mp hm
  cases s with
  | folder path => cases hspot
  | page path id p =>
      obtain ⟨-, hp, rfl⟩ := (hsteps.mem_iff path id p).mp hs
      rw [Step.place?_page (hdone _ hs), b.placeOf_rendered h, ← b.target_page h hp] at hspot
      obtain ⟨rest, -, hbelow⟩ := hinside (.page id) ⟨p, hp⟩
      refine hplace.not_prefix names ⟨rest, ?_⟩
      rw [← hbelow]
      exact Option.some.inj hspot

/-- The assets are the files that are in the folder of the assets when they are copied. -/
theorem mem_assets_iff (h : desk.disk.Proper) (hinside : b.StaysInside)
    (hassets : Separate (desk.disk.placeOf c.build.output) (desk.disk.placeOf c.build.assets))
    {x : Path × Path} : x ∈ copiesOf b.rendered.disk c.build.assets c.build.output ↔
      ∃ names, b.Makes (.asset names) ∧
        x = (c.build.assets.join (pathOf names), b.target (.asset names)) := by
  rw [mem_copiesOf_iff (b.proper_rendered h), b.placeOf_rendered h]
  simp only [b.fileAt_rendered h hinside hassets]
  constructor
  · rintro ⟨hfolder, names, hfile, hx⟩
    exact ⟨names, ⟨hfolder, hfile⟩, hx⟩
  · rintro ⟨names, ⟨hfolder, hfile⟩, hx⟩
    exact ⟨hfolder, names, hfile, hx⟩

/-- The place of an asset. -/
theorem placeOf_asset (h : desk.disk.Proper) (hinside : b.StaysInside)
    (hassets : Separate (desk.disk.placeOf c.build.output) (desk.disk.placeOf c.build.assets))
    {names : List String} (hmakes : b.Makes (.asset names)) :
    desk.disk.placeOf (c.build.assets.join (pathOf names)) =
      desk.disk.placeOf c.build.assets ++ names := by
  obtain ⟨hfolder, hfile⟩ := hmakes
  have hne : names ≠ [] := by
    rintro rfl
    rw [← b.fileAt_rendered h hinside hassets, List.append_nil, ← b.placeOf_rendered h,
      Disk.fileAt_placeOf_of_hasFolder hfolder] at hfile
    cases hfile
  obtain ⟨bytes, hbytes⟩ := Option.isSome_iff_exists.mp hfile
  have hnames := (List.forall_mem_append.mp (h.top.at? (Entry.file?_eq_some_iff.mp hbytes)).2).2
  rw [← Path.joinAll_eq hne fun name hname => (hnames name hname).1]
  exact desk.disk.placeOf_joinAll c.build.assets hne hnames

/-- Other files come from the folder of the content. -/
theorem exists_placeOf_source (h : desk.disk.Proper) {source target : Path}
    (hmakes : b.Makes (.copy source target)) :
    ∃ names, desk.disk.placeOf source = desk.disk.placeOf c.build.content ++ names := by
  obtain ⟨-, -, -, -, hcopies⟩ := of_collect_eq_ok (b.proper_prepared h) b.collect
  obtain ⟨names, hne, hnames, hsource⟩ := hcopies _ hmakes
  obtain rfl : source = c.build.content.joinAll names := hsource
  exact ⟨names, desk.disk.placeOf_joinAll c.build.content hne hnames⟩

theorem ne_of_separate (hinside : b.StaysInside) {o : Output} (hmakes : b.Makes o)
    {place : List String} (hplace : Separate (desk.disk.placeOf c.build.output) place)
    (names : List String) : b.place o ≠ place ++ names := fun heq => by
  obtain ⟨rest, -, hbelow⟩ := hinside o hmakes
  exact hplace.not_prefix names ⟨rest, hbelow.symm.trans heq⟩

/-- Nothing that is made later goes to the same place. -/
theorem IsLast.ne_of_lt {b : Built c fresh desk desk' n} {o o' : Output} (h : b.IsLast o)
    (hmakes : b.Makes o') (hphase : o.phase < o'.phase) : b.place o' ≠ b.place o := fun heq => by
  rcases h o' hmakes heq with rfl | hlt
  · exact Nat.lt_irrefl _ hphase
  · exact Nat.lt_asymm hphase hlt

/-! ## What arrives -/

/-- What can be read once the assets have been copied can be read in the end, unless another file
is copied there. -/
theorem read_of_assets (h : desk.disk.Proper) {p : Path} {bytes : ByteArray}
    (hread : b.assets.disk.read p = .ok bytes)
    (hplace : ∀ source target, b.Makes (.copy source target) →
      b.place (.copy source target) ≠ desk.disk.placeOf p) : desk'.disk.read p = .ok bytes := by
  obtain ⟨hgrows, hframe, -⟩ := of_copyFiles_eq_ok b.copyOthers
  rw [b.done]
  refine hgrows.read hread ?_
  rw [hframe _ fun x hx => ?_]
  · exact Disk.fileAt_of_read hread
  · rw [b.placeOf_assets h, b.placeOf_assets h]
    exact hplace x.1 x.2 hx

section

variable (h : desk.disk.Proper) (hinside : b.StaysInside)
  (hassets : Separate (desk.disk.placeOf c.build.output) (desk.disk.placeOf c.build.assets))

include h hinside hassets

/-- Copying the assets changes no file to which none of them goes. -/
theorem fileAt_assets {place : List String}
    (hplace : ∀ names, b.Makes (.asset names) → b.place (.asset names) ≠ place) :
    b.assets.disk.fileAt place = b.rendered.disk.fileAt place := by
  obtain ⟨-, hframe, -⟩ := of_copyFiles_eq_ok b.copyAssets
  refine hframe place fun x hx => ?_
  obtain ⟨names, hmakes, rfl⟩ := (b.mem_assets_iff h hinside hassets).mp hx
  rw [b.placeOf_rendered h]
  exact hplace names hmakes

theorem arrives_page {id : Nat} (hmakes : b.Makes (.page id)) (hlast : b.IsLast (.page id)) :
    b.Arrives (.page id) := by
  obtain ⟨p, hp⟩ := hmakes
  have halone : b.begun.IsAlone id := by
    intro id' p' hp' heq
    have hplaces : b.place (.page id') = b.place (.page id) := by
      rw [place, place, b.target_page h hp', b.target_page h hp]
      exact heq
    cases (hlast (.page id') ⟨p', hp'⟩ hplaces).resolve_right (Nat.lt_irrefl 0)
    rfl
  obtain ⟨f, bytes, hf, hpage, hread⟩ := b.begun.read_rendered h b.render hp halone
  have hfile : b.begun.file id = b.target (.page id) := (b.target_page h hp).symm
  rw [hfile] at hread
  refine ⟨_, ⟨p, f, hp, hf, hpage⟩, b.read_of_assets h ?_ fun source target hmakes =>
    hlast.ne_of_lt hmakes (Nat.zero_lt_succ 1)⟩
  refine (of_copyFiles_eq_ok b.copyAssets).1.read hread ?_
  rw [b.fileAt_assets h hinside hassets fun names hmakes => ?_]
  · exact Disk.fileAt_of_read hread
  · rw [b.placeOf_rendered h]
    exact hlast.ne_of_lt hmakes (Nat.zero_lt_succ 0)

theorem arrives_asset {names : List String} (hmakes : b.Makes (.asset names))
    (hlast : b.IsLast (.asset names)) : b.Arrives (.asset names) := by
  have hsource := b.placeOf_asset h hinside hassets hmakes
  obtain ⟨-, -, hcopied⟩ := of_copyFiles_eq_ok b.copyAssets
  simp only [b.placeOf_rendered h] at hcopied
  obtain ⟨bytes, hbytes, hread⟩ := hcopied _
    ((b.mem_assets_iff h hinside hassets).mpr ⟨names, hmakes, rfl⟩) (fun y hy => by
      obtain ⟨names', hmakes', rfl⟩ := (b.mem_assets_iff h hinside hassets).mp hy
      rw [hsource]
      exact b.ne_of_separate hinside hmakes' hassets names) fun y hy heq => by
        obtain ⟨names', hmakes', rfl⟩ := (b.mem_assets_iff h hinside hassets).mp hy
        cases (hlast (.asset names') hmakes' heq).resolve_right (Nat.lt_irrefl 1)
        rfl
  rw [hsource, b.fileAt_rendered h hinside hassets] at hbytes
  exact ⟨bytes, hbytes, b.read_of_assets h hread fun source target hmakes =>
    hlast.ne_of_lt hmakes (Nat.lt_succ_self 1)⟩

theorem arrives_copy
    (hcontent : Separate (desk.disk.placeOf c.build.output) (desk.disk.placeOf c.build.content))
    {source target : Path} (hmakes : b.Makes (.copy source target))
    (hlast : b.IsLast (.copy source target)) : b.Arrives (.copy source target) := by
  obtain ⟨names, hsource⟩ := b.exists_placeOf_source h hmakes
  obtain ⟨-, -, hcopied⟩ := of_copyFiles_eq_ok b.copyOthers
  simp only [b.placeOf_assets h] at hcopied
  obtain ⟨bytes, hbytes, hread⟩ := hcopied _ hmakes (fun y hy => by
      rw [hsource]
      exact b.ne_of_separate hinside (o := .copy y.1 y.2) hy hcontent names) fun y hy heq => by
        cases (hlast (.copy y.1 y.2) hy heq).resolve_right (Nat.lt_irrefl 2)
        rfl
  refine ⟨bytes, ?_, by rw [b.done]; exact hread⟩
  rw [hsource, b.fileAt_assets h hinside hassets fun names' hmakes' =>
    b.ne_of_separate hinside hmakes' hcontent names, b.fileAt_rendered h hinside hcontent] at hbytes
  rw [Holds, hsource]
  exact hbytes

end

end Built

theorem exists_eq_ok {ε α σ : Type} {run : Except ε α × σ} {a : α}
    (h : run.1.toOption = some a) : ∃ s, run = (.ok a, s) :=
  ⟨run.2, Prod.ext (toOption_eq_some_iff.mp h) rfl⟩

/-- A build that succeeds has gone through all of its steps.  It makes copies of all files in the
folder of the assets, if the path to that folder does not go up.  If all that it makes goes below
the output folder, which is separate from the folders of the content and the assets, then all of it
arrives, unless something that is made later, or in the same step, goes to the same place. -/
theorem intact_buildSite {c : Config} {fresh : Fresh} {desk desk' : Desk} {n : Nat}
    (hproper : desk.disk.Proper)
    (hcontent : Separate (desk.disk.placeOf c.build.output) (desk.disk.placeOf c.build.content))
    (hassets : Separate (desk.disk.placeOf c.build.output) (desk.disk.placeOf c.build.assets))
    (h : c.buildSite fresh desk = (.ok n, desk')) : Nonempty (Built c fresh desk desk' n) ∧
      ∀ b : Built c fresh desk desk' n,
        (desk.disk.hasFolder c.build.assets = true → ".." ∉ c.build.assets.segments → ∀ names,
          (desk.disk.fileAt (desk.disk.placeOf c.build.assets ++ names)).isSome = true →
          b.Makes (.asset names)) ∧
        (b.StaysInside → ∀ o, b.Makes o → b.IsLast o → b.Arrives o) := by
  refine ⟨exists_built h, fun b => ⟨fun hfolder hup names hfile =>
    ⟨b.hasFolder_rendered hproper hfolder hup hassets.1, hfile⟩, fun hinside o hmakes hlast => ?_⟩⟩
  cases o with
  | page id => exact b.arrives_page hproper hinside hassets hmakes hlast
  | asset names => exact b.arrives_asset hproper hinside hassets hmakes hlast
  | copy source target => exact b.arrives_copy hproper hinside hassets hcontent hmakes hlast

/-- A page, and another file next to it. -/
theorem intact_buildSite_apart :
    let desk : Desk := ⟨⟨.folder [("content",
      .folder [("index.md", .file "# Hi".toUTF8), ("logo.svg", .file "x".toUTF8)])], []⟩, []⟩
    ∃ desk', desk.disk.Proper ∧ Separate ["public"] ["content"] ∧ Separate ["public"] ["assets"] ∧
      ({} : Config).buildSite (Fresh.ofSeed 7) desk = (.ok 1, desk') ∧
      ∃ b : Built {} (Fresh.ofSeed 7) desk desk' 1, b.StaysInside ∧
        b.Makes (.page 0) ∧ b.Makes (.copy ⟨"content/logo.svg"⟩ ⟨"public/logo.svg"⟩) ∧
        ∀ o, b.Makes o → b.IsLast o ∧ b.Arrives o := by
  intro desk
  have hproper : desk.disk.Proper := by
    refine ⟨.folder (by decide) (by decide) ?_, by decide⟩
    rw [List.forall_mem_singleton]
    exact .folder (by decide) (by decide) (by simp [Entry.Proper.file])
  have hrun : (({} : Config).buildSite (Fresh.ofSeed 7) desk).1.toOption = some 1 := by
    decide +kernel
  have hsite : ((({} : Config).collect (({} : Config).prepareOutput desk).2.disk).toOption.map
      fun found => (found.1.tree.pageIds, (found.1.tree.physicalPath 0).toOption, found.1.copies)) =
      some ([0], some "main/index.html", [(⟨"content/logo.svg"⟩, ⟨"public/logo.svg"⟩)]) := by
    decide +kernel
  obtain ⟨desk', hdone⟩ := exists_eq_ok hrun
  obtain ⟨⟨b⟩, harrives⟩ := intact_buildSite hproper (by decide) (by decide) hdone
  rw [congrArg Prod.snd b.prepare, b.collect] at hsite
  simp only [Except.toOption, Option.map_some, Option.some_inj, Prod.mk.injEq] at hsite
  obtain ⟨hpages, hpath, hcopies⟩ := hsite
  have hmakes : ∀ o, b.Makes o ↔
      o = .page 0 ∨ o = .copy ⟨"content/logo.svg"⟩ ⟨"public/logo.svg"⟩ := fun o => by
    rw [b.makes_iff (fun names hasset => by cases hasset.2) o, hpages, hcopies]
    simp
  have hpage : b.place (.page 0) = ["public", "index.html"] := by
    rw [Built.place, Built.target, toOption_eq_some_iff.mp hpath]
    decide
  have hcopy : b.place (.copy ⟨"content/logo.svg"⟩ ⟨"public/logo.svg"⟩) =
      ["public", "logo.svg"] := by
    rw [Built.place, Built.target]
    decide
  have hinside : b.StaysInside := fun o ho => by
    rcases (hmakes o).mp ho with rfl | rfl
    · exact ⟨["index.html"], by decide, hpage⟩
    · exact ⟨["logo.svg"], by decide, hcopy⟩
  have hlast : ∀ o, b.Makes o → b.IsLast o := fun o ho o' ho' heq => by
    rcases (hmakes o).mp ho with rfl | rfl <;> rcases (hmakes o').mp ho' with rfl | rfl
    · exact .inl rfl
    · rw [hpage, hcopy] at heq
      exact absurd heq (by decide)
    · exact .inr (Nat.zero_lt_succ 1)
    · exact .inl rfl
  exact ⟨desk', hproper, by decide, by decide, hdone, b, hinside, (hmakes _).mpr (.inl rfl),
    (hmakes _).mpr (.inr rfl), fun o ho => ⟨hlast o ho, (harrives b).2 hinside o ho (hlast o ho)⟩⟩

/-- A file that goes where a page goes replaces it. -/
theorem not_intact_buildSite_same :
    let desk : Desk := ⟨⟨.folder [("content",
      .folder [("index.html", .file "x".toUTF8), ("index.md", .file "# Hi".toUTF8)])], []⟩, []⟩
    ∃ desk', desk.disk.Proper ∧ Separate ["public"] ["content"] ∧ Separate ["public"] ["assets"] ∧
      ({} : Config).buildSite (Fresh.ofSeed 7) desk = (.ok 1, desk') ∧
      ∃ b : Built {} (Fresh.ofSeed 7) desk desk' 1,
        b.Makes (.page 0) ∧ b.place (.page 0) = ["public", "index.html"] ∧
        b.Makes (.copy ⟨"content/index.html"⟩ ⟨"public/index.html"⟩) ∧
        b.place (.copy ⟨"content/index.html"⟩ ⟨"public/index.html"⟩) = ["public", "index.html"] ∧
        ¬ b.Arrives (.page 0) := by
  intro desk
  have hproper : desk.disk.Proper := by
    refine ⟨.folder (by decide) (by decide) ?_, by decide⟩
    rw [List.forall_mem_singleton]
    exact .folder (by decide) (by decide) (by simp [Entry.Proper.file])
  have hrun : (({} : Config).buildSite (Fresh.ofSeed 7) desk).1.toOption = some 1 := by
    decide +kernel
  have hread : ((({} : Config).buildSite (Fresh.ofSeed 7) desk).2.disk.read
      ⟨"public/index.html"⟩).toOption.map ByteArray.size = some 1 := by decide +kernel
  have hsite : ((({} : Config).collect (({} : Config).prepareOutput desk).2.disk).toOption.map
      fun found => (found.1.tree.pageIds, (found.1.tree.physicalPath 0).toOption, found.1.copies)) =
      some ([0], some "main/index.html", [(⟨"content/index.html"⟩, ⟨"public/index.html"⟩)]) := by
    decide +kernel
  have hsize : (({} : Config).markers.toOption.bind fun m =>
      (({} : Config).collect (({} : Config).prepareOutput desk).2.disk).toOption.bind fun found =>
        ((found.1.tree.item? 0).bind Item.page?).bind fun p =>
          ((found.1.tree.pageNode (({} : Config).renderOptions m) 0 p).render
            ((Fresh.ofSeed 7).below 0)).toOption.map fun f =>
              (Tree.pageBytes (({} : Config).renderOptions m) f).size) ≠ some 1 := by
    decide +kernel
  obtain ⟨desk', hdone⟩ := exists_eq_ok hrun
  obtain ⟨b⟩ := exists_built hdone
  rw [congrArg Prod.snd b.prepare, b.collect] at hsite hsize
  simp only [Except.toOption, Option.map_some, Option.some_inj, Prod.mk.injEq] at hsite
  obtain ⟨hpages, hpath, hcopies⟩ := hsite
  have hpath := toOption_eq_some_iff.mp hpath
  have hmakes : b.Makes (.page 0) := Tree.mem_pageIds.mp (by simp [hpages])
  refine ⟨desk', hproper, by decide, by decide, hdone, b, hmakes, ?_,
    by simp [Built.Makes, hcopies], ?_, ?_⟩
  · rw [Built.place, Built.target, hpath]
    decide
  · rw [Built.place, Built.target]
    decide
  · rintro ⟨bytes, ⟨p, f, hp, hf, ⟨rfl, -, -⟩⟩, hbytes⟩
    -- The page is longer than what is there.
    rw [Built.target, hpath] at hbytes
    rw [hdone] at hread
    have hone := (congrArg (fun r => r.toOption.map ByteArray.size) hbytes).symm.trans hread
    rw [b.mark] at hsize
    refine hsize ?_
    simp only [Except.toOption, Option.bind_some, hp, Item.page?, hf]
    exact hone

end PageLoom
