import PageLoom.Proofs.Disk.Files
import PageLoom.Tree.Render
import Mathlib.Data.List.Pairwise

/-!
# Taking steps

What taking a step does to the files of a disk, and then what taking many does.  Steps that
all succeed change no files but those of their pages, and leave everything in place that they
need (`of_takeAll_eq_ok`).  If their pages have different files, each file holds its page in
the end (`contents_of_takeAll`).

Steps that have been taken make nothing new when they are taken again: whether they succeed
or not, the same places are those of files, and they succeed if all pages render
(`takeAll_of_isDone`).
-/

namespace PageLoom

/-! ## Writing a file -/

theorem writeFile_of_ok {p : Path} {d d₁ : Disk} (h : d.makeFolderOf p = (.ok (), d₁))
    (content : String) :
    writeFile p content d = Work.change (·.write p content.toUTF8) (.disk p) d₁ := by
  rw [Disk.makeFolderOf] at h
  unfold writeFile
  split at h
  next folder hfolder =>
    rw [hfolder]
    by_cases hempty : folder.text.isEmpty = true
    · rw [Disk.makeFolders, Disk.makeFoldersFrom, if_pos hempty] at h
      cases h
      simp only [if_pos hempty]
    · simp only [if_neg hempty]
      rw [Work.bind_apply, Work.makeFolders, h]
  next hfolder =>
    rw [hfolder]
    cases h
    rfl

theorem writeFile_of_error {p : Path} {d d₁ : Disk} {e : DiskError}
    (h : d.makeFolderOf p = (.error e, d₁)) (content : String) :
    ∃ folder, writeFile p content d = (.error (.disk folder e), d₁) := by
  rw [Disk.makeFolderOf] at h
  unfold writeFile
  split at h
  next folder hfolder =>
    refine ⟨folder, ?_⟩
    rw [hfolder]
    by_cases hempty : folder.text.isEmpty = true
    · rw [Disk.makeFolders, Disk.makeFoldersFrom, if_pos hempty] at h
      cases h
    · simp only [if_neg hempty]
      rw [Work.bind_apply, Work.makeFolders, h]
  next => cases h

/-- Whether it succeeds or not, the folder of the file is made, and then the file may be written. -/
theorem snd_writeFile (p : Path) (content : String) (d : Disk) :
    (writeFile p content d).2 = (d.makeFolderOf p).2 ∨
      ∃ d₁, d.makeFolderOf p = (.ok (), d₁) ∧
        d₁.write p content.toUTF8 = .ok (writeFile p content d).2 := by
  rcases hrun : d.makeFolderOf p with ⟨e | ⟨⟩, d₁⟩
  · obtain ⟨folder, hfolder⟩ := writeFile_of_error hrun content
    exact .inl (by rw [hfolder])
  · rw [writeFile_of_ok hrun, Work.change]
    split
    next d₂ hwrite => exact .inr ⟨d₁, rfl, hwrite⟩
    next => exact .inl rfl

/-- A file cannot be written only if the disk refuses something. -/
theorem of_writeFile_eq_error {p : Path} {content : String} {d d' : Disk} {e : OutputError}
    (h : writeFile p content d = (.error e, d')) : ∃ path err, e = .disk path err := by
  rcases hmade : d.makeFolderOf p with ⟨err | ⟨⟩, d₁⟩
  · obtain ⟨folder, hfolder⟩ := writeFile_of_error hmade content
    cases hfolder.symm.trans h
    exact ⟨folder, err, rfl⟩
  · rw [writeFile_of_ok hmade, Work.change] at h
    split at h
    next => cases h
    next err _ =>
      cases h
      exact ⟨p, err, rfl⟩

/-- A file that has been written is the only one that has changed. -/
theorem of_writeFile_eq_ok {p : Path} {content : String} {d d' : Disk}
    (h : writeFile p content d = (.ok (), d')) : d.Grows d' ∧ d'.IsMadeFor p ∧ d'.IsWritten p ∧
      ∃ place, d'.locate p = .ok (place, .file content.toUTF8) ∧
        ∀ other, d'.fileAt other =
          if other = place then some content.toUTF8 else d.fileAt other := by
  rcases hmade : d.makeFolderOf p with ⟨err | ⟨⟩, d₁⟩
  · obtain ⟨folder, hfolder⟩ := writeFile_of_error hmade content
    cases hfolder.symm.trans h
  · rw [writeFile_of_ok hmade, Work.change] at h
    split at h
    next d₂ hwrite =>
      cases h
      obtain ⟨place, hplace, hothers⟩ := Disk.exists_place_of_write hwrite
      obtain ⟨hg, hfolder⟩ := Disk.of_makeFolderOf_eq_ok hmade
      have hg' := (Disk.of_write hwrite).1
      refine ⟨hg.trans hg', hg'.isMadeFor hfolder, Disk.isWritten_of_write hwrite, place, hplace,
        fun other => ?_⟩
      rw [hothers, Disk.fileAt_makeFolderOf hmade]
    next => cases h

/-- A file that has been written can be written again. -/
theorem exists_writeFile_of_isWritten {p : Path} {d : Disk} (hmade : d.IsMadeFor p)
    (h : d.IsWritten p) (content : String) :
    ∃ d', writeFile p content d = (.ok (), d') ∧ d.SameFiles d' := by
  obtain ⟨d', hwrite, hsame⟩ := Disk.exists_write_of_isWritten h content.toUTF8
  refine ⟨d', ?_, hsame⟩
  rw [writeFile_of_ok (Disk.makeFolderOf_of_isMadeFor hmade), Work.change, hwrite]

/-! ## Steps -/

namespace Step

/-- The page that a step makes. -/
def pageId? : Step → Option Nat
  | .folder _ => none
  | .page _ id _ => some id

/-- What a step makes is there. -/
def IsDone (d : Disk) : Step → Prop
  | .folder path => d.IsMade path
  | .page path _ _ => d.IsMadeFor path ∧ d.IsWritten path

/-- The place of the page that a step makes. -/
def place? (d : Disk) : Step → Option (List String)
  | .folder _ => none
  | .page path _ _ => (d.locate path).toOption.map Prod.fst

theorem IsDone.grows {d d' : Disk} (hg : d.Grows d') {s : Step} (h : s.IsDone d) : s.IsDone d' := by
  cases s with
  | folder path => exact hg.isMade h
  | page path id p => exact ⟨hg.isMadeFor h.1, hg.isWritten h.2⟩

/-- A page that has been made is at the place of its path. -/
theorem place?_page {d : Disk} {path : Path} {id : Nat} {p : Page}
    (h : (Step.page path id p).IsDone d) :
    (Step.page path id p).place? d = some (d.placeOf path) := by
  obtain ⟨place, bytes, hlocate⟩ := Disk.hasFile_iff.mp h.2.1
  rw [place?, hlocate, ← Disk.eq_placeOf_of_locate hlocate]
  rfl

theorem place?_eq_some_of_grows {d d' : Disk} (hg : d.Grows d') {s : Step} {place : List String}
    (h : s.place? d = some place) : s.place? d' = some place := by
  cases s with
  | folder path => cases h
  | page path id p =>
      rw [place?] at h ⊢
      cases hl : d.locate path with
      | error e => rw [hl] at h; cases h
      | ok found =>
          obtain ⟨found, e⟩ := found
          obtain ⟨e', he', -⟩ := hg.locate hl
          rw [hl] at h
          cases h
          rw [he']
          rfl

end Step

namespace Tree

variable {t : Tree} {o : RenderOptions} {fresh : Fresh}

/-- The bytes of a page whose rendering is `f`. -/
def pageBytes (o : RenderOptions) (f : Fragment) : ByteArray :=
  (finishMarkup o.minify f.markup).toUTF8

/-- What is in the file of a page whose rendering is `f`. -/
structure IsPageFile (o : RenderOptions) (f : Fragment) (bytes : ByteArray) : Prop where
  finished : bytes = pageBytes o f
  /-- The file holds the markup of the page as it is, unless pages are made smaller. -/
  plain : o.minify = false → bytes = f.markup.toUTF8
  smaller : o.minify = true → bytes = (Html.minify f.markup).toUTF8

theorem isPageFile_pageBytes (o : RenderOptions) (f : Fragment) :
    IsPageFile o f (pageBytes o f) where
  finished := rfl
  plain h := by rw [pageBytes, finishMarkup, if_neg (by simp [h])]
  smaller h := by rw [pageBytes, finishMarkup, if_pos h]

/-! ## Taking one step -/

theorem take_folder (t : Tree) (o : RenderOptions) (fresh : Fresh) (path : Path) (d : Disk) :
    t.take o fresh (.folder path) d =
      match d.makeFolders path with
      | (.ok (), d') => (.ok 0, d')
      | (.error e, d') => (.error (.output path (.disk path e)), d') := by
  rw [take, Work.bind_apply, Work.makeFolders]
  rcases d.makeFolders path with ⟨e | ⟨⟩, d'⟩ <;> rfl

theorem take_page_of_ok {path : Path} {id : Nat} {p : Page} {f : Fragment}
    (h : (t.pageNode o id p).render (fresh.below id) = .ok f) (d : Disk) :
    t.take o fresh (.page path id p) d =
      match writeFile path (finishMarkup o.minify f.markup) d with
      | (.ok (), d') => (.ok 1, d')
      | (.error e, d') => (.error (.output path e), d') := by
  rw [take, Work.bind_apply, Work.mapError, Node.output, h, Work.bind_apply]
  dsimp only [Work.ofExcept, Except.mapError]
  rw [Work.bind_apply]
  rcases writeFile path (finishMarkup o.minify f.markup) d with ⟨e | ⟨⟩, d'⟩ <;> rfl

theorem take_page_of_error {path : Path} {id : Nat} {p : Page} {es : List SpanError}
    (h : (t.pageNode o id p).render (fresh.below id) = .error es) (d : Disk) :
    t.take o fresh (.page path id p) d = (.error (.output path (.calls es)), d) := by
  rw [take, Work.bind_apply, Work.mapError, Node.output, h, Work.bind_apply]
  rfl

theorem snd_take_folder (t : Tree) (o : RenderOptions) (fresh : Fresh) (path : Path) (d : Disk) :
    (t.take o fresh (.folder path) d).2 = (d.makeFolders path).2 := by
  rw [take_folder]
  rcases d.makeFolders path with ⟨e | ⟨⟩, d'⟩ <;> rfl

/-- Whether it succeeds or not, a page changes nothing, or its file is written. -/
theorem snd_take_page (t : Tree) (o : RenderOptions) (fresh : Fresh) (path : Path) (id : Nat)
    (p : Page) (d : Disk) : (t.take o fresh (.page path id p) d).2 = d ∨
      ∃ content, (t.take o fresh (.page path id p) d).2 = (writeFile path content d).2 := by
  cases hf : (t.pageNode o id p).render (fresh.below id) with
  | error es => exact .inl (by rw [take_page_of_error hf])
  | ok f =>
      refine .inr ⟨finishMarkup o.minify f.markup, ?_⟩
      rw [take_page_of_ok hf]
      rcases writeFile path (finishMarkup o.minify f.markup) d with ⟨e | ⟨⟩, d'⟩ <;> rfl

/-- What a step that succeeds has done. -/
theorem of_take_eq_ok {s : Step} {d d' : Disk} {n : Nat} (h : t.take o fresh s d = (.ok n, d')) :
    d.Grows d' ∧ s.IsDone d' ∧ n = s.pageId?.toList.length ∧
      (∀ other, s.place? d' ≠ some other → d'.fileAt other = d.fileAt other) ∧
      ∀ path id p, s = .page path id p → ∃ f place,
        (t.pageNode o id p).render (fresh.below id) = .ok f ∧
        d'.locate path = .ok (place, .file (pageBytes o f)) := by
  cases s with
  | folder path =>
      rw [take_folder] at h
      split at h
      next hmade =>
        cases h
        exact ⟨Disk.grows_makeFoldersFrom hmade, Disk.isMade_of_makeFolders hmade, rfl,
          fun other _ => Disk.fileAt_makeFolders hmade other, fun path id p he => by cases he⟩
      next => cases h
  | page path id p =>
      cases hf : (t.pageNode o id p).render (fresh.below id) with
      | error es =>
          rw [take_page_of_error hf] at h
          cases h
      | ok f =>
          rw [take_page_of_ok hf] at h
          split at h
          next hw =>
            cases h
            obtain ⟨hg, hmade, hwritten, place, hplace, hothers⟩ := of_writeFile_eq_ok hw
            refine ⟨hg, ⟨hmade, hwritten⟩, rfl, fun other hother => ?_, fun path id p he => ?_⟩
            · rw [hothers, if_neg]
              rintro rfl
              rw [Step.place?, hplace] at hother
              exact hother rfl
            · cases he
              exact ⟨f, place, hf, hplace⟩
          next => cases h

/-- A step fails only if calls of its page fail, or the disk refuses something. -/
theorem of_take_eq_error {s : Step} {d d' : Disk} {e : RenderError}
    (h : t.take o fresh s d = (.error e, d')) :
    (∃ path id p es, s = .page path id p ∧
      (t.pageNode o id p).render (fresh.below id) = .error es ∧ e = .output path (.calls es)) ∨
    ∃ path q err, e = .output path (.disk q err) := by
  cases s with
  | folder path =>
      rw [take_folder] at h
      split at h
      next => cases h
      next err _ _ =>
        cases h
        exact .inr ⟨path, path, err, rfl⟩
  | page path id p =>
      cases hf : (t.pageNode o id p).render (fresh.below id) with
      | error es =>
          rw [take_page_of_error hf] at h
          cases h
          exact .inl ⟨path, id, p, es, rfl, hf, rfl⟩
      | ok f =>
          rw [take_page_of_ok hf] at h
          split at h
          next => cases h
          next hw =>
            cases h
            obtain ⟨q, err, rfl⟩ := of_writeFile_eq_error hw
            exact .inr ⟨path, q, err, rfl⟩

/-- Taking a step again makes nothing new, and succeeds if the page of the step renders. -/
theorem take_of_isDone {s : Step} {d : Disk} (hs : s.IsDone d) (o : RenderOptions)
    (fresh : Fresh) : ∃ r d', t.take o fresh s d = (r, d') ∧ d.SameFiles d' ∧
      ((∀ path id p, s = .page path id p →
        ∃ f, (t.pageNode o id p).render (fresh.below id) = .ok f) → ∃ n, r = .ok n) := by
  cases s with
  | folder path =>
      rw [take_folder, Disk.makeFolders_of_isMade hs]
      exact ⟨_, _, rfl, fun _ => rfl, fun _ => ⟨0, rfl⟩⟩
  | page path id p =>
      cases hf : (t.pageNode o id p).render (fresh.below id) with
      | error es =>
          refine ⟨_, _, take_page_of_error hf d, fun _ => rfl, fun hrender => ?_⟩
          obtain ⟨f, hok⟩ := hrender path id p rfl
          cases hf.symm.trans hok
      | ok f =>
          obtain ⟨d', hw, hsame⟩ :=
            exists_writeFile_of_isWritten hs.1 hs.2 (finishMarkup o.minify f.markup)
          rw [take_page_of_ok hf, hw]
          exact ⟨_, _, rfl, hsame, fun _ => ⟨1, rfl⟩⟩

/-! ## Taking many steps -/

/-- Every page among some steps renders. -/
def AllRender (t : Tree) (o : RenderOptions) (fresh : Fresh) (steps : List Step) : Prop :=
  ∀ path id p, .page path id p ∈ steps → ∃ f, (t.pageNode o id p).render (fresh.below id) = .ok f

theorem takeAll_cons (t : Tree) (o : RenderOptions) (fresh : Fresh) (s : Step) (ss : List Step)
    (d : Disk) : t.takeAll o fresh (s :: ss) d =
      match t.take o fresh s d with
      | (.error e, d₁) => (.error e, d₁)
      | (.ok n, d₁) =>
          match t.takeAll o fresh ss d₁ with
          | (.error e, d₂) => (.error e, d₂)
          | (.ok m, d₂) => (.ok (n + m), d₂) := by
  rw [takeAll, Work.bind_apply]
  rcases t.take o fresh s d with ⟨e | n, d₁⟩
  · rfl
  · dsimp only
    rw [Work.bind_apply]
    rcases t.takeAll o fresh ss d₁ with ⟨e | m, d₂⟩ <;> rfl

theorem of_takeAll_cons_eq_ok {s : Step} {ss : List Step} {d d' : Disk} {n : Nat}
    (h : t.takeAll o fresh (s :: ss) d = (.ok n, d')) : ∃ k m d₁,
      t.take o fresh s d = (.ok k, d₁) ∧ t.takeAll o fresh ss d₁ = (.ok m, d') ∧ n = k + m := by
  rw [takeAll_cons] at h
  split at h
  next => cases h
  next k d₁ hs =>
    split at h
    next => cases h
    next m d₂ hss =>
      cases h
      exact ⟨k, m, d₁, hs, hss, rfl⟩

/-- Steps that succeed are done, count their pages, and change no other files. -/
theorem of_takeAll_eq_ok {steps : List Step} {d d' : Disk} {n : Nat}
    (h : t.takeAll o fresh steps d = (.ok n, d')) : d.Grows d' ∧ (∀ s ∈ steps, s.IsDone d') ∧
      n = (steps.filterMap Step.pageId?).length ∧
      ∀ other, other ∉ steps.filterMap (Step.place? d') → d'.fileAt other = d.fileAt other := by
  induction steps generalizing d n with
  | nil =>
      cases h
      exact ⟨.refl _, List.forall_mem_nil _, rfl, fun _ _ => rfl⟩
  | cons s ss ih =>
      obtain ⟨k, m, d₁, hs, hss, rfl⟩ := of_takeAll_cons_eq_ok h
      obtain ⟨hg, hdone, rfl, hframe, -⟩ := of_take_eq_ok hs
      obtain ⟨hgrows, hdones, rfl, hframes⟩ := ih hss
      refine ⟨hg.trans hgrows, ?_, ?_, fun other hother => ?_⟩
      · exact List.forall_mem_cons.mpr ⟨hdone.grows hgrows, hdones⟩
      · cases hid : s.pageId? with
        | none => rw [List.filterMap_cons_none hid]; exact Nat.zero_add _
        | some id => rw [List.filterMap_cons_some hid]; exact Nat.add_comm _ _
      · -- The place of a step stays the same in all that follows.
        have hplace : s.place? d' ≠ some other := fun hplace =>
          hother (List.mem_filterMap.mpr ⟨s, .head _, hplace⟩)
        have hrest : other ∉ ss.filterMap (Step.place? d') := fun hrest => by
          obtain ⟨s', hs', he⟩ := List.mem_filterMap.mp hrest
          exact hother (List.mem_filterMap.mpr ⟨s', .tail _ hs', he⟩)
        rw [hframes other hrest, hframe other fun h₁ =>
          hplace (Step.place?_eq_some_of_grows hgrows h₁)]

/-- Steps that succeed have written a page, if no other step has the same place. -/
theorem content_of_takeAll {steps : List Step} {d d' : Disk} {n : Nat}
    (h : t.takeAll o fresh steps d = (.ok n, d')) {path : Path} {id : Nat} {p : Page}
    (hm : .page path id p ∈ steps)
    (halone : ∀ s ∈ steps, s.place? d' = Step.place? d' (.page path id p) → s = .page path id p) :
    ∃ f place, (t.pageNode o id p).render (fresh.below id) = .ok f ∧
      d'.locate path = .ok (place, .file (pageBytes o f)) := by
  induction steps generalizing d n with
  | nil => cases hm
  | cons s ss ih =>
      obtain ⟨k, m, d₁, hs, hss, -⟩ := of_takeAll_cons_eq_ok h
      rw [List.forall_mem_cons] at halone
      by_cases hlater : .page path id p ∈ ss
      · exact ih hss hlater halone.2
      obtain rfl := (List.mem_cons.mp hm).resolve_right hlater
      obtain ⟨-, -, -, -, hpage⟩ := of_take_eq_ok hs
      obtain ⟨f, place, hf, hplace⟩ := hpage path id p rfl
      obtain ⟨hgrows, -, -, hframe⟩ := of_takeAll_eq_ok hss
      obtain ⟨e, he, hfile⟩ := hgrows.locate hplace
      refine ⟨f, place, hf, ?_⟩
      -- No later step writes there.
      have hname : Step.place? d' (.page path id p) = some place := by
        rw [Step.place?, he]
        rfl
      have hkept := hframe place fun hin => by
        obtain ⟨s, hmem, hs⟩ := List.mem_filterMap.mp hin
        exact hlater (halone.2 s hmem (hs.trans hname.symm) ▸ hmem)
      rw [Disk.fileAt_of_locate hplace] at hkept
      cases e with
      | folder es => cases hfile
      | file bytes =>
          rw [Disk.fileAt_of_locate he] at hkept
          cases hkept
          exact he

/-- Steps that succeed have written their pages, if these have different files. -/
theorem contents_of_takeAll {steps : List Step} {d d' : Disk} {n : Nat}
    (h : t.takeAll o fresh steps d = (.ok n, d'))
    (hdistinct : (steps.filterMap (Step.place? d')).Nodup) :
    ∀ path id p, .page path id p ∈ steps → ∃ f place,
      (t.pageNode o id p).render (fresh.below id) = .ok f ∧
      d'.locate path = .ok (place, .file (pageBytes o f)) := by
  intro path id p hm
  refine content_of_takeAll h hm fun s hs heq => ?_
  have hplace := Step.place?_page ((of_takeAll_eq_ok h).2.1 _ hm)
  have hsymm : Std.Symm fun s s' : Step =>
      ∀ a ∈ s.place? d', ∀ b ∈ s'.place? d', a ≠ b :=
    ⟨fun _ _ hne a ha b hb => (hne b hb a ha).symm⟩
  by_contra hne
  exact (List.pairwise_filterMap.mp hdistinct).forall hs hm hne _ (heq.trans hplace) _ hplace rfl

/-- Steps fail only if calls of a page fail, or the disk refuses something. -/
theorem of_takeAll_eq_error {steps : List Step} {d d' : Disk} {e : RenderError}
    (h : t.takeAll o fresh steps d = (.error e, d')) :
    (∃ path id p es, .page path id p ∈ steps ∧
      (t.pageNode o id p).render (fresh.below id) = .error es ∧ e = .output path (.calls es)) ∨
    ∃ path q err, e = .output path (.disk q err) := by
  induction steps generalizing d with
  | nil => cases h
  | cons s ss ih =>
      rw [takeAll_cons] at h
      split at h
      next hs =>
        cases h
        obtain ⟨path, id, p, es, rfl, hf, he⟩ | hrefused := of_take_eq_error hs
        · exact .inl ⟨path, id, p, es, .head _, hf, he⟩
        · exact .inr hrefused
      next =>
        split at h
        next hss =>
          cases h
          obtain ⟨path, id, p, es, hm, hf, he⟩ | hrefused := ih hss
          · exact .inl ⟨path, id, p, es, .tail _ hm, hf, he⟩
          · exact .inr hrefused
        next => cases h

/-- After a step that fails, no other one is taken. -/
theorem takeAll_append_of_error {front : List Step} {d d' : Disk} {e : RenderError}
    (h : t.takeAll o fresh front d = (.error e, d')) (rest : List Step) :
    t.takeAll o fresh (front ++ rest) d = (.error e, d') := by
  induction front generalizing d with
  | nil => cases h
  | cons s ss ih =>
      rw [takeAll_cons] at h
      rw [List.cons_append, takeAll_cons]
      rcases hs : t.take o fresh s d with ⟨e' | n, d₁⟩
      · rw [hs] at h
        cases h
        rfl
      · rw [hs] at h
        dsimp only at h ⊢
        split at h
        next hss =>
          cases h
          rw [ih hss]
        next => cases h

/-- After steps that succeed, the others are taken. -/
theorem takeAll_append_of_ok {front rest : List Step} {d d₁ d' : Disk} {n : Nat} {e : RenderError}
    (h : t.takeAll o fresh front d = (.ok n, d₁))
    (hrest : t.takeAll o fresh rest d₁ = (.error e, d')) :
    t.takeAll o fresh (front ++ rest) d = (.error e, d') := by
  induction front generalizing d n with
  | nil =>
      cases h
      exact hrest
  | cons s ss ih =>
      obtain ⟨k, m, d₂, hs, hss, rfl⟩ := of_takeAll_cons_eq_ok h
      rw [List.cons_append, takeAll_cons]
      simp only [hs, ih hss]

/-- Unless the disk refuses something, steps are taken up to the first page of which calls fail,
and nothing is done for that page. -/
theorem takeAll_stops {front rest : List Step} {path : Path} {id : Nat} {p : Page}
    {es : List SpanError} {d : Disk} (hfront : t.AllRender o fresh front)
    (hf : (t.pageNode o id p).render (fresh.below id) = .error es)
    (accepted : ∀ place q err, (t.takeAll o fresh (front ++ .page path id p :: rest) d).1 ≠
      .error (.output place (.disk q err))) :
    ∃ n d', t.takeAll o fresh front d = (.ok n, d') ∧
      t.takeAll o fresh (front ++ .page path id p :: rest) d =
        (.error (.output path (.calls es)), d') := by
  rcases hrun : t.takeAll o fresh front d with ⟨e | n, d'⟩
  · obtain ⟨place, c, q, es', hm, hc, -⟩ | ⟨place, q, err, rfl⟩ := of_takeAll_eq_error hrun
    · obtain ⟨f, hok⟩ := hfront place c q hm
      cases hc.symm.trans hok
    · rw [takeAll_append_of_error hrun] at accepted
      exact absurd rfl (accepted place q err)
  · refine ⟨n, d', rfl, takeAll_append_of_ok hrun ?_⟩
    rw [takeAll_cons, take_page_of_error hf]

/-- Steps that succeed have rendered all of their pages. -/
theorem allRender_of_takeAll_eq_ok {steps : List Step} {d d' : Disk} {n : Nat}
    (h : t.takeAll o fresh steps d = (.ok n, d')) : t.AllRender o fresh steps := by
  induction steps generalizing d n with
  | nil => exact fun _ _ _ hm => nomatch hm
  | cons s ss ih =>
      obtain ⟨k, m, d₁, hs, hss, -⟩ := of_takeAll_cons_eq_ok h
      intro path id p hm
      cases List.mem_cons.mp hm with
      | inl hfirst =>
          obtain ⟨f, -, hf, -⟩ := (of_take_eq_ok hs).2.2.2.2 path id p hfirst.symm
          exact ⟨f, hf⟩
      | inr hrest => exact ih hss path id p hrest

/-- Steps that are done make nothing new, and succeed again if all pages render. -/
theorem takeAll_of_isDone {steps : List Step} {d : Disk} (hdone : ∀ s ∈ steps, s.IsDone d)
    (o : RenderOptions) (fresh : Fresh) : ∃ r d', t.takeAll o fresh steps d = (r, d') ∧
      d.SameFiles d' ∧ (t.AllRender o fresh steps → ∃ n, r = .ok n) := by
  induction steps generalizing d with
  | nil => exact ⟨_, _, rfl, fun _ => rfl, fun _ => ⟨0, rfl⟩⟩
  | cons s ss ih =>
      obtain ⟨r, d₁, hs, hsame, hok⟩ := take_of_isDone (t := t) (hdone s (.head _)) o fresh
      rw [takeAll_cons, hs]
      cases r with
      | error e =>
          refine ⟨_, _, rfl, hsame, fun hrender => ?_⟩
          obtain ⟨n, hn⟩ := hok fun path id p he => hrender path id p (he ▸ .head _)
          cases hn
      | ok n =>
          have hgrows := (of_take_eq_ok hs).1
          obtain ⟨r, d₂, hss, hsame', hok'⟩ :=
            ih fun s' hs' => (hdone s' (.tail _ hs')).grows hgrows
          dsimp only
          rw [hss]
          cases r with
          | error e =>
              refine ⟨_, _, rfl, hsame.trans hsame', fun hrender => ?_⟩
              obtain ⟨m, hm⟩ := hok' fun path id p hm => hrender path id p (.tail _ hm)
              cases hm
          | ok m => exact ⟨_, _, rfl, hsame.trans hsame', fun _ => ⟨n + m, rfl⟩⟩

end Tree

end PageLoom
