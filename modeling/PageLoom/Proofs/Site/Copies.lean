import PageLoom.Proofs.Disk.Copying
import PageLoom.Proofs.Disk.Descent
import PageLoom.Proofs.Disk.Proper
import PageLoom.Site.Build

/-!
# Copies

The files of a folder are copied to the same names in the target (`mem_copiesOf_iff`).  Copying
files one after the other changes nothing but the targets.  A target holds what was in its source
before, if nothing else is copied there, and nothing at all to the source (`of_copyFiles_eq_ok`).
-/

namespace PageLoom

/-! ## The files of a folder -/

namespace Entry

/-- The files of a folder are those of its first entry, and those of the others. -/
theorem Proper.isSome_file?_cons {x : String × Entry} {rest : List (String × Entry)}
    (h : (Entry.folder (x :: rest)).Proper) (names : List String) :
    ((Entry.folder (x :: rest)).file? names).isSome = true ↔
      (∃ below, names = x.1 :: below ∧ (x.2.file? below).isSome = true) ∨
        ((Entry.folder rest).file? names).isSome = true := by
  cases names with
  | nil =>
      have hfolder : ∀ es, (Entry.folder es).file? [] = none := fun _ => rfl
      simp [hfolder]
  | cons name names =>
      rw [file?_folder_cons, file?_folder_cons, lookupName]
      split
      next hname =>
        -- No other entry has the name of the first one.
        rw [lookupName_eq_none fun y hy => hname ▸ (h.of_cons.2.2 y hy).symm]
        simp [hname]
      next hname => simp [Ne.symm hname]

end Entry

theorem mem_filesBelow_iff {entries : List (String × Entry)} (h : (Entry.folder entries).Proper)
    {start p : String} : p ∈ filesBelow start entries ↔
      ∃ names, ((Entry.folder entries).file? names).isSome = true ∧ p = start ++ pathOf names := by
  induction entries using entries_induction generalizing start with
  | nil =>
      rw [filesBelow]
      refine ⟨fun hp => (by cases hp), ?_⟩
      rintro ⟨_ | ⟨name, names⟩, hfile, -⟩ <;> cases hfile
  | file name bytes rest ih =>
      rw [filesBelow, List.mem_cons, ih h.of_cons.2.1]
      constructor
      · rintro (rfl | ⟨names, hfile, rfl⟩)
        · exact ⟨[name], (h.isSome_file?_cons _).mpr (.inl ⟨[], rfl, rfl⟩), by
            rw [pathOf_singleton]⟩
        · exact ⟨names, (h.isSome_file?_cons _).mpr (.inr hfile), rfl⟩
      · rintro ⟨names, hfile, rfl⟩
        rcases (h.isSome_file?_cons _).mp hfile with ⟨below, rfl, hbelow⟩ | hfile
        · cases below with
          | nil => exact .inl (by rw [pathOf_singleton])
          | cons next below => cases hbelow
        · exact .inr ⟨names, hfile, rfl⟩
  | folder name inside rest ihInside ih =>
      have hpath : ∀ below, ((Entry.folder inside).file? below).isSome = true →
          start ++ pathOf (name :: below) = start ++ name ++ "/" ++ pathOf below := by
        intro below hbelow
        cases below with
        | nil => cases hbelow
        | cons next below =>
            rw [pathOf_cons_cons]
            simp only [String.append_assoc]
      rw [filesBelow, List.mem_append, ihInside h.of_cons.1, ih h.of_cons.2.1]
      constructor
      · rintro (⟨below, hbelow, rfl⟩ | ⟨names, hfile, rfl⟩)
        · exact ⟨name :: below, (h.isSome_file?_cons _).mpr (.inl ⟨below, rfl, hbelow⟩),
            (hpath below hbelow).symm⟩
        · exact ⟨names, (h.isSome_file?_cons _).mpr (.inr hfile), rfl⟩
      · rintro ⟨names, hfile, rfl⟩
        rcases (h.isSome_file?_cons _).mp hfile with ⟨below, rfl, hbelow⟩ | hfile
        · exact .inl ⟨below, hbelow, hpath below hbelow⟩
        · exact .inr ⟨names, hfile, rfl⟩

/-- The files of a folder, and those in its folders, are copied. -/
theorem mem_copiesOf_iff {d : Disk} (h : d.Proper) {source target : Path} {x : Path × Path} :
    x ∈ copiesOf d source target ↔ d.hasFolder source = true ∧
      ∃ names, (d.fileAt (d.placeOf source ++ names)).isSome = true ∧
        x = (source.join (pathOf names), target.join (pathOf names)) := by
  rw [copiesOf, Disk.list, Disk.hasFolder]
  split
  next entries hlist =>
    split at hlist
    next place entries hlocate =>
      cases hlist
      have hplace := Disk.eq_placeOf_of_locate hlocate
      have hat := Disk.at?_of_locate hlocate
      have hfiles : ∀ names, d.fileAt (d.placeOf source ++ names) =
          (Entry.folder entries).file? names := fun names => by
        rw [Disk.fileAt, Entry.file?, Entry.file?, Entry.at?_append, ← hplace, hat,
          Option.bind_some]
      simp only [List.mem_map, mem_filesBelow_iff (h.top.at? hat).1, String.empty_append, hfiles,
        hlocate, true_and]
      constructor
      · rintro ⟨p, ⟨names, hfile, rfl⟩, rfl⟩
        exact ⟨names, hfile, rfl⟩
      · rintro ⟨names, hfile, rfl⟩
        exact ⟨_, ⟨names, hfile, rfl⟩, rfl⟩
    next => cases hlist
    next => cases hlist
  next e hlist =>
    split at hlist
    next => cases hlist
    next place bytes hlocate => simp [hlocate]
    next hlocate => simp [hlocate]

/-! ## Work with a log -/

/-- Work goes on with what its first part gives, and ends if that fails. -/
theorem Noted.bind_apply {α β : Type} (w : Noted α) (f : α → Noted β) (desk : Desk) :
    (w >>= f) desk = match w desk with
      | (.ok a, desk₁) => f a desk₁
      | (.error e, desk₁) => (.error e, desk₁) := by
  have hbind : (w >>= f) desk = (match w desk with | (r, desk₁) => ExceptT.bindCont f r desk₁) :=
    rfl
  rw [hbind]
  rcases w desk with ⟨e | a, desk₁⟩ <;> rfl

/-- Work that succeeds has succeeded in its first part, and then in the rest. -/
theorem Noted.of_bind_eq_ok {α β : Type} {w : Noted α} {f : α → Noted β} {desk desk' : Desk} {b : β}
    (h : (w >>= f) desk = (.ok b, desk')) :
    ∃ a desk₁, w desk = (.ok a, desk₁) ∧ f a desk₁ = (.ok b, desk') := by
  rw [bind_apply] at h
  split at h
  next a desk₁ hw => exact ⟨a, desk₁, hw, h⟩
  next => cases h

theorem Noted.of_work_eq_ok {ε α : Type} {w : Work ε α} {wrap : ε → SiteError} {desk desk' : Desk}
    {a : α} (h : work w wrap desk = (.ok a, desk')) : w desk.disk = (.ok a, desk'.disk) := by
  rw [work] at h
  split at h
  next hw =>
    cases h
    exact hw
  next => cases h

theorem Noted.of_change_eq_ok {f : Disk → Except DiskError Disk} {wrap : DiskError → SiteError}
    {desk desk' : Desk} (h : work (Work.change f id) wrap desk = (.ok (), desk')) :
    f desk.disk = .ok desk'.disk := by
  have hchange := of_work_eq_ok h
  rw [Work.change] at hchange
  split at hchange
  next hf =>
    cases hchange
    exact hf
  next => cases hchange

theorem Noted.of_makeFolders_eq_ok {p : Path} {wrap : DiskError → SiteError} {desk desk' : Desk}
    (h : work (Work.makeFolders p id) wrap desk = (.ok (), desk')) :
    desk.disk.makeFolders p = (.ok (), desk'.disk) := by
  have hmade := of_work_eq_ok h
  rw [Work.makeFolders] at hmade
  split at hmade
  next hrun =>
    cases hmade
    exact hrun
  next => cases hmade

/-! ## Copying -/

theorem of_copyFile_eq_ok {source target : Path} {desk desk' : Desk}
    (h : copyFile source target desk = (.ok (), desk')) : ∃ d₁,
      desk.disk.makeFolderOf target = (.ok (), d₁) ∧ d₁.copy source target = .ok desk'.disk := by
  unfold copyFile at h
  rw [Disk.makeFolderOf]
  cases hfolder : target.folder? with
  | some folder =>
      rw [hfolder] at h
      obtain ⟨⟨⟩, desk₁, hmade, hcopied⟩ := Noted.of_bind_eq_ok h
      exact ⟨desk₁.disk, Noted.of_makeFolders_eq_ok hmade, Noted.of_change_eq_ok hcopied⟩
  | none =>
      rw [hfolder] at h
      exact ⟨desk.disk, rfl, Noted.of_change_eq_ok h⟩

/-- Files that have been copied are the only ones that have changed. -/
theorem of_copyFiles_eq_ok {copies : List (Path × Path)} {desk desk' : Desk}
    (h : copyFiles copies desk = (.ok (), desk')) : desk.disk.Grows desk'.disk ∧
      (∀ place, (∀ x ∈ copies, desk.disk.placeOf x.2 ≠ place) →
        desk'.disk.fileAt place = desk.disk.fileAt place) ∧
      ∀ x ∈ copies, (∀ y ∈ copies, desk.disk.placeOf y.2 ≠ desk.disk.placeOf x.1) →
        (∀ y ∈ copies, desk.disk.placeOf y.2 = desk.disk.placeOf x.2 → y = x) →
        ∃ bytes, desk.disk.fileAt (desk.disk.placeOf x.1) = some bytes ∧
          desk'.disk.read x.2 = .ok bytes := by
  induction copies generalizing desk with
  | nil =>
      cases h
      exact ⟨.refl _, fun _ _ => rfl, fun x hx => by cases hx⟩
  | cons y rest ih =>
      obtain ⟨⟨⟩, desk₁, hfirst, hrest⟩ := Noted.of_bind_eq_ok h
      obtain ⟨d₁, hmade, hcopy⟩ := of_copyFile_eq_ok hfirst
      obtain ⟨hgrowsMade, -⟩ := Disk.of_makeFolderOf_eq_ok hmade
      obtain ⟨hgrowsCopy, hframeCopy, bytes, hread, hsource⟩ := Disk.of_copy_eq_ok hcopy
      obtain ⟨hgrowsRest, hframeRest, hcopied⟩ := ih hrest
      have hgrows := hgrowsMade.trans hgrowsCopy
      have hplaceOf := Disk.placeOf_of_here hgrows.1
      have hfirstFrame : ∀ place, desk.disk.placeOf y.2 ≠ place →
          desk₁.disk.fileAt place = desk.disk.fileAt place := fun place hne => by
        rw [hframeCopy place (by rw [Disk.placeOf_of_here hgrowsMade.1]; exact hne.symm),
          Disk.fileAt_makeFolderOf hmade]
      refine ⟨hgrows.trans hgrowsRest, fun place hplace => ?_, fun x hx hkept hdistinct => ?_⟩
      · rw [List.forall_mem_cons] at hplace
        rw [hframeRest place fun x hx => by rw [hplaceOf]; exact hplace.2 x hx,
          hfirstFrame place hplace.1]
      rw [List.forall_mem_cons] at hkept hdistinct
      by_cases hlater : x ∈ rest
      · rw [← hfirstFrame _ hkept.1, ← hplaceOf]
        simp only [hplaceOf] at hcopied ⊢
        exact hcopied x hlater hkept.2 hdistinct.2
      · -- Nothing is copied there later.
        obtain rfl := (List.mem_cons.mp hx).resolve_right hlater
        refine ⟨bytes, ?_, hgrowsRest.read hread ?_⟩
        · rw [← Disk.fileAt_makeFolderOf hmade, ← Disk.placeOf_of_here hgrowsMade.1]
          refine hsource ?_
          rw [Disk.placeOf_of_here hgrowsMade.1, Disk.placeOf_of_here hgrowsMade.1]
          exact hkept.1.symm
        · rw [hframeRest _ fun z hz heq => ?_]
          · exact Disk.fileAt_of_read hread
          · rw [hplaceOf, hplaceOf] at heq
            exact hlater (hdistinct.2 z hz heq ▸ hz)

end PageLoom
