import PageLoom.Proofs.Disk.Copying
import PageLoom.Proofs.Disk.Outside
import PageLoom.Proofs.Tree.Files
import PageLoom.Proofs.Tree.History

/-!
# Rendering stays inside

The name of a page or a document is checked as it is given, and what it is stored under is what
is left of the name on disk.  A page gets an extension, so it is always stored under a plain
entry.  A document does not: it is stored as `.` or `..` if nothing else is left of its name.

Where this does not happen, all steps of a branch go down through names from the folder that the
branch is rendered into (`forall_steps_goesDown`).  One such step changes nothing but what is
below that folder, and so do all of them, whether they succeed or not (`takeAll_frame`).
-/

namespace PageLoom

/-! ## Entries -/

/-- The characters of a name that are left on disk. -/
def keptOf (name : String) : List Char := (trim name.toList).filter (!isForbidden ·)

/-- Whether a document of this name is stored as the folder that it is in, or the one above. -/
def LeavesDots (name : String) : Prop := keptOf name = ['.'] ∨ keptOf name = ['.', '.']

theorem map_blanks_eq_iff {cs dots : List Char} (h : ∀ c ∈ dots, c = '.') :
    (cs.map fun c => if isBlank c then '_' else c) = dots ↔ cs = dots := by
  have hdot : ∀ c, (if isBlank c then '_' else c) = '.' ↔ c = '.' := fun c => by
    by_cases hc : isBlank c = true
    · rw [if_pos hc]
      refine ⟨fun he => absurd he (by decide), fun he => ?_⟩
      subst he
      exact absurd hc (by decide)
    · rw [if_neg hc]
  induction cs generalizing dots with
  | nil => rfl
  | cons c cs ih =>
      cases dots with
      | nil => simp
      | cons d dots =>
          rw [List.forall_mem_cons] at h
          obtain ⟨rfl, hdots⟩ := h
          rw [List.map_cons, List.cons.injEq, List.cons.injEq, hdot]
          exact and_congr_right fun _ => ih hdots

theorem isPlainEntry_diskName_iff (name : String) :
    IsPlainEntry (diskName name) ↔ ¬ LeavesDots name := by
  have hdots : ∀ entry : String, (∀ c ∈ entry.toList, c = '.') →
      (diskName name = entry ↔ keptOf name = entry.toList) := fun entry h => by
    rw [← map_blanks_eq_iff h, ← String.toList_inj, diskName, String.toList_ofList, keptOf]
  rw [IsPlainEntry, LeavesDots, not_or, ne_eq, ne_eq, hdots "." (by simp), hdots ".." (by simp)]
  rfl

/-- A document that is not stored under its name is stored under a plain entry. -/
theorem Document.Made.isPlainEntry_or {d : Document} (h : d.Made) :
    IsPlainEntry d.folder ∨ d.folder = diskName d.name := by
  cases h with
  | ofName h =>
      unfold Document.ofName? at h
      split at h
      next =>
        cases h
        exact .inr rfl
      next => cases h
  | storedAs _ h =>
      unfold Document.storedAs? at h
      split at h
      next hname =>
        cases h
        exact .inl ⟨hname.1.2.2.1, hname.1.2.2.2⟩
      next => cases h

theorem Document.Made.not_isPlainEntry_iff {d : Document} (h : d.Made) :
    ¬ IsPlainEntry d.folder ↔ d.folder = diskName d.name ∧ LeavesDots d.name := by
  constructor
  · intro hplain
    have hfolder := h.isPlainEntry_or.resolve_left hplain
    rw [hfolder, isPlainEntry_diskName_iff, not_not] at hplain
    exact ⟨hfolder, hplain⟩
  · rintro ⟨hfolder, hdots⟩
    rwa [hfolder, isPlainEntry_diskName_iff, not_not]

/-! ## Steps that go down -/

namespace Step

/-- The path of what a step makes. -/
def path : Step → Path
  | .folder path => path
  | .page path _ _ => path

/-- Whether a step makes something at the end of names that lead down from a folder. -/
def GoesDown (base : Path) (s : Step) : Prop :=
  ∃ names, names ≠ [] ∧ (∀ name ∈ names, IsEntryName name ∧ IsPlainEntry name) ∧
    s.path = base.joinAll names

theorem GoesDown.join {base : Path} {name : String} {s : Step} (h : s.GoesDown (base.join name))
    (hname : IsEntryName name ∧ IsPlainEntry name) : s.GoesDown base := by
  obtain ⟨names, -, hnames, hpath⟩ := h
  exact ⟨name :: names, List.cons_ne_nil _ _, List.forall_mem_cons.mpr ⟨hname, hnames⟩, hpath⟩

theorem GoesDown.isBelow {base : Path} {s : Step} (h : s.GoesDown base) (d : Disk) :
    IsBelow (d.placeOf base) (d.placeOf s.path) := by
  obtain ⟨names, hne, hnames, hpath⟩ := h
  exact ⟨names, hne, by rw [hpath, d.placeOf_joinAll base hne hnames]⟩

end Step

theorem goesDown_of_mem_stepsBelow {dir : Path} {bs : List Branch} {s : Step}
    (h : ∀ b ∈ bs, ∀ s ∈ b.steps dir, s.GoesDown dir) (hs : s ∈ stepsBelow dir bs) :
    s.GoesDown dir := by
  obtain ⟨b, hb, hsb⟩ := List.mem_flatMap.mp ((stepsBelow_perm dir bs).mem_iff.mp hs)
  exact h b hb s hsb

mutual
/-- The steps of a branch whose entries are plain go down. -/
theorem forall_steps_goesDown : ∀ (b : Branch), b.Sound (fun item => IsPlainEntry item.entry) →
    ∀ dir : Path, ∀ s ∈ b.steps dir, s.GoesDown dir
  | ⟨id, .page p, children⟩, hb, dir, s, hs => by
      rw [Branch.steps, List.mem_singleton] at hs
      subst hs
      exact ⟨[p.file], List.cons_ne_nil _ _,
        List.forall_mem_singleton.mpr ⟨p.isEntryName_file, hb.1⟩, rfl⟩
  | ⟨id, .document d, children⟩, hb, dir, s, hs => by
      have hfolder : IsEntryName d.folder ∧ IsPlainEntry d.folder := ⟨d.isEntryName_folder, hb.1⟩
      rw [Branch.steps, List.mem_cons] at hs
      rcases hs with rfl | hs
      · exact ⟨[d.folder], List.cons_ne_nil _ _, List.forall_mem_singleton.mpr hfolder, rfl⟩
      · refine (goesDown_of_mem_stepsBelow (fun b hmem => ?_) hs).join hfolder
        exact forall_all_goesDown children hb.2.2 (dir.join d.folder) b hmem

theorem forall_all_goesDown : ∀ (bs : List Branch),
    Branch.AllSound (fun item => IsPlainEntry item.entry) bs →
    ∀ dir : Path, ∀ b ∈ bs, ∀ s ∈ b.steps dir, s.GoesDown dir
  | [], _, _, _, hb => by cases hb
  | b :: bs, h, dir, c, hc => by
      rcases List.mem_cons.mp hc with hb | hc
      · rw [hb]
        exact forall_steps_goesDown b h.1 dir
      · exact forall_all_goesDown bs h.2 dir c hc
end

/-! ## Taking steps that go down -/

theorem sameOutside_writeFile {d : Disk} {base : Path} (h : d.hasFolder base = true)
    {names : List String} (hne : names ≠ [])
    (hnames : ∀ name ∈ names, IsEntryName name ∧ IsPlainEntry name) (content : String) :
    d.SameOutside (d.placeOf base) (writeFile (base.joinAll names) content d).2 := by
  have hfolder := Disk.sameOutside_makeFolderOf h hne hnames
  rcases snd_writeFile (base.joinAll names) content d with hwritten | ⟨d₁, hmade, hwrite⟩
  · rwa [hwritten]
  · rw [hmade] at hfolder
    refine hfolder.trans (Disk.sameOutside_write ?_ hwrite)
    rw [Disk.placeOf_of_here hfolder.1]
    exact ⟨names, hne, d.placeOf_joinAll base hne hnames⟩

/-- Writing a file changes no other file, whether it succeeds or not. -/
theorem fileAt_writeFile {d : Disk} {p : Path} {place : List String} (hne : place ≠ d.placeOf p)
    (content : String) : (writeFile p content d).2.fileAt place = d.fileAt place := by
  rcases snd_writeFile p content d with hwritten | ⟨d₁, hmade, hwrite⟩
  · rw [hwritten]
    exact Disk.fileAt_makeFolderOf rfl place
  · obtain ⟨-, -, hothers⟩ := Disk.of_write_eq_ok hwrite
    rw [hothers, Disk.placeOf_of_here (Disk.of_makeFolderOf_eq_ok hmade).1.1, if_neg hne]
    exact Disk.fileAt_makeFolderOf hmade place

namespace Tree

variable {t : Tree} {o : RenderOptions} {fresh : Fresh}

/-- A step that goes down from a folder changes nothing outside. -/
theorem sameOutside_take {d : Disk} {base : Path} (h : d.hasFolder base = true) {s : Step}
    (hs : s.GoesDown base) : d.SameOutside (d.placeOf base) (t.take o fresh s d).2 := by
  obtain ⟨names, hne, hnames, hpath⟩ := hs
  cases s with
  | folder path =>
      obtain rfl : path = base.joinAll names := hpath
      rw [snd_take_folder]
      exact Disk.sameOutside_makeFolders h hne hnames
  | page path id p =>
      obtain rfl : path = base.joinAll names := hpath
      rcases snd_take_page t o fresh (base.joinAll names) id p d with hkept | ⟨content, hwritten⟩
      · rw [hkept]
        exact .refl d _
      · rw [hwritten]
        exact sameOutside_writeFile h hne hnames content

/-- A step changes no file but the one at the place of its path. -/
theorem fileAt_take {d : Disk} {s : Step} {place : List String} (hne : place ≠ d.placeOf s.path) :
    (t.take o fresh s d).2.fileAt place = d.fileAt place := by
  cases s with
  | folder path =>
      rw [snd_take_folder]
      exact Disk.fileAt_makeFolders rfl place
  | page path id p =>
      rcases snd_take_page t o fresh path id p d with hkept | ⟨content, hwritten⟩
      · rw [hkept]
      · rw [hwritten]
        exact fileAt_writeFile hne content

/-- What every step does to a disk, all of them do, whether they succeed or not.  The invariant
is kept as long as nothing is removed. -/
theorem takeAll_frame {I : Disk → Prop} {R : Disk → Disk → Prop} {steps : List Step}
    (refl : ∀ d, R d d) (trans : ∀ a b c, R a b → R b c → R a c)
    (grows : ∀ d d', I d → d.Grows d' → I d')
    (step : ∀ s ∈ steps, ∀ d, I d → R d (t.take o fresh s d).2) {d : Disk} (hd : I d) :
    R d (t.takeAll o fresh steps d).2 := by
  induction steps generalizing d with
  | nil => exact refl d
  | cons s ss ih =>
      rw [List.forall_mem_cons] at step
      have hs := step.1 d hd
      rw [takeAll_cons]
      rcases hrun : t.take o fresh s d with ⟨e | n, d₁⟩
      · rwa [hrun] at hs
      · rw [hrun] at hs
        have hss := ih step.2 (grows d d₁ hd (of_take_eq_ok hrun).1)
        refine trans d d₁ _ hs ?_
        dsimp only
        rcases hrest : t.takeAll o fresh ss d₁ with ⟨e | m, d₂⟩ <;> rwa [hrest] at hss

theorem sameOutside_takeAll {base : Path} {steps : List Step}
    (hsteps : ∀ s ∈ steps, s.GoesDown base) {d : Disk} (h : d.hasFolder base = true) :
    d.SameOutside (d.placeOf base) (t.takeAll o fresh steps d).2 := by
  refine takeAll_frame (I := fun c => c.hasFolder base = true ∧ c.placeOf base = d.placeOf base)
    (R := fun a b => a.SameOutside (d.placeOf base) b) (fun c => .refl c _)
    (fun _ _ _ hab hbc => hab.trans hbc) (fun a b ha hg => ?_) (fun s hs c hc => ?_) ⟨h, rfl⟩
  · exact ⟨hg.hasFolder ha.1, (Disk.placeOf_of_here hg.1 base).trans ha.2⟩
  · exact hc.2 ▸ sameOutside_take hc.1 (hsteps s hs)

theorem fileAt_takeAll {base : Path} {steps : List Step}
    (hsteps : ∀ s ∈ steps, s.GoesDown base) {d : Disk} {place : List String}
    (hplace : ¬ IsBelow (d.placeOf base) place) :
    (t.takeAll o fresh steps d).2.fileAt place = d.fileAt place := by
  refine takeAll_frame (I := fun c => c.placeOf base = d.placeOf base)
    (R := fun a b => b.fileAt place = a.fileAt place) (fun _ => rfl)
    (fun _ _ _ hab hbc => hbc.trans hab) (fun a b ha hg => ?_) (fun s hs c hc => ?_) rfl
  · exact (Disk.placeOf_of_here hg.1 base).trans ha
  · refine fileAt_take ?_
    rintro rfl
    exact hplace (hc ▸ (hsteps s hs).isBelow c)

/-! ## Rendering -/

/-- What all that a node is rendered to is below. -/
structure StaysBelow (t : Tree) (id : Nat) (base : Path) : Prop where
  /-- What is made for a node is below the folder that it is rendered into. -/
  steps : ∀ b, t.branch? id = some b → ∀ s ∈ b.steps base, ∀ d : Disk,
    IsBelow (d.placeOf base) (d.placeOf s.path)
  /-- So is what is made for its children. -/
  stepsBelow : ∀ b, t.branch? id = some b → ∀ s ∈ PageLoom.stepsBelow base b.children,
    ∀ d : Disk, IsBelow (d.placeOf base) (d.placeOf s.path)
  /-- Rendering changes no file outside, whether it succeeds or not. -/
  files : ∀ o fresh (d : Disk) place, ¬ IsBelow (d.placeOf base) place →
    (t.render o fresh id base d).2.fileAt place = d.fileAt place ∧
    (t.renderInto o fresh id base d).2.fileAt place = d.fileAt place
  /-- It changes nothing outside if the folder is there. -/
  outside : ∀ o fresh (d : Disk), d.hasFolder base = true →
    d.SameOutside (d.placeOf base) (t.render o fresh id base d).2 ∧
    d.SameOutside (d.placeOf base) (t.renderInto o fresh id base d).2

/-- An unknown node is not rendered. -/
theorem render_of_unknown {id : Nat} (hb : t.branch? id = none) (dir : Path) (d : Disk) :
    t.render o fresh id dir d = (.error (.tree (.unknownNode id)), d) ∧
      t.renderInto o fresh id dir d = (.error (.tree (.unknownNode id)), d) := by
  rw [render, renderInto, branch, hb]
  exact ⟨rfl, rfl⟩

theorem WellFormed.staysBelow (h : t.WellFormed fun item => IsPlainEntry item.entry) (id : Nat)
    (base : Path) : t.StaysBelow id base := by
  have hsteps : ∀ b, t.branch? id = some b → ∀ s ∈ b.steps base, s.GoesDown base := fun b hb =>
    forall_steps_goesDown b (h.sound_of_branch? id b hb) base
  have hbelow : ∀ b, t.branch? id = some b → ∀ s ∈ PageLoom.stepsBelow base b.children,
      s.GoesDown base := fun ⟨_, _, children⟩ hb _ hs =>
    goesDown_of_mem_stepsBelow
      (forall_all_goesDown children (h.sound_of_branch? id _ hb).2.2 base) hs
  constructor
  case steps => exact fun b hb s hs d => (hsteps b hb s hs).isBelow d
  case stepsBelow => exact fun b hb s hs d => (hbelow b hb s hs).isBelow d
  case files =>
    intro o fresh d place hplace
    cases hb : t.branch? id with
    | none =>
        rw [(render_of_unknown hb base d).1, (render_of_unknown hb base d).2]
        exact ⟨rfl, rfl⟩
    | some b =>
        rw [render_eq hb, renderInto_eq hb]
        exact ⟨fileAt_takeAll (hsteps b hb) hplace, fileAt_takeAll (hbelow b hb) hplace⟩
  case outside =>
    intro o fresh d hfolder
    cases hb : t.branch? id with
    | none =>
        rw [(render_of_unknown hb base d).1, (render_of_unknown hb base d).2]
        exact ⟨.refl d _, .refl d _⟩
    | some b =>
        rw [render_eq hb, renderInto_eq hb]
        exact ⟨sameOutside_takeAll (hsteps b hb) hfolder, sameOutside_takeAll (hbelow b hb) hfolder⟩

/-- Pages are stored under plain entries, and so are documents, unless only dots are left of
their names.  Trees of such pages and documents are rendered to what is below the folder that
they are rendered into. -/
theorem staysBelow_make {changes : List Change} (h : ∀ c ∈ changes, c.Constructed) :
    (∀ p : Page, p.Made → IsEntryName p.file ∧ IsPlainEntry p.file) ∧
    (∀ d : Document, d.Made → IsEntryName d.folder ∧
      (¬ IsPlainEntry d.folder ↔ d.folder = diskName d.name ∧ LeavesDots d.name)) ∧
    ∀ id base, (make changes).StaysBelow id base :=
  ⟨fun p hp => ⟨p.isEntryName_file, hp.isPlainEntry⟩,
    fun d hd => ⟨d.isEntryName_folder, hd.not_isPlainEntry_iff⟩,
    (wellFormed_make fun c hc => (h c hc).adds).staysBelow⟩

/-- A document whose name keeps more than dots is rendered into its own folder. -/
theorem staysBelow_make_dots : ∃ page folder,
    Page.ofName? "index" "" = .ok page ∧ Document.ofName? "..<a>" = .ok folder ∧
    let t := make [.page page, .document folder [0]]
    let d : Disk := ⟨.folder [("out", .folder [])], []⟩
    let r := t.render ⟨.empty, .standard, false, "en", none, []⟩ (Fresh.ofSeed 7) 1 ⟨"out"⟩ d
    r.1.toOption = some 1 ∧ r.2.hasFile ⟨"out/..a/index.html"⟩ = true ∧
      d.SameOutside ["out"] r.2 := by
  have hpage := @Page.Made.ofName "index" "" _ rfl
  have hfolder := @Document.Made.ofName "..<a>" _ rfl
  have hstays := (@staysBelow_make [.page _, .document _ [0]] (by
    intro c hc
    simp only [List.mem_cons, List.not_mem_nil, or_false] at hc
    rcases hc with rfl | rfl
    · exact hpage
    · exact ⟨hfolder, by decide, by decide⟩)).2.2 1 ⟨"out"⟩
  exact ⟨_, _, rfl, rfl, by decide +kernel, by decide +kernel,
    (hstays.outside ⟨.empty, .standard, false, "en", none, []⟩ (Fresh.ofSeed 7)
      ⟨.folder [("out", .folder [])], []⟩ (by decide)).1⟩

/-- A document of which only dots are left is rendered into the folder above. -/
theorem not_staysBelow_dots : ∃ page folder,
    Page.ofName? "index" "" = .ok page ∧ Document.ofName? "<..>" = .ok folder ∧
    folder.folder = ".." ∧
    let t := make [.page page, .document folder [0]]
    let d : Disk := ⟨.folder [("out", .folder [])], []⟩
    let r := t.render ⟨.empty, .standard, false, "en", none, []⟩ (Fresh.ofSeed 7) 1 ⟨"out"⟩ d
    r.1.toOption = some 1 ∧ d.placeOf ⟨"out"⟩ = ["out"] ∧ ¬ IsBelow ["out"] ["index.html"] ∧
      (d.fileAt ["index.html"]).isNone = true ∧ (r.2.fileAt ["index.html"]).isSome = true := by
  refine ⟨_, _, rfl, rfl, rfl, by decide +kernel, by decide, ?_, by decide, by decide +kernel⟩
  rintro ⟨names, -, hplace⟩
  exact absurd (List.cons.inj hplace).1 (by decide)

end Tree

end PageLoom
