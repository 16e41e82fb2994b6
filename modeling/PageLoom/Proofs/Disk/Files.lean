import PageLoom.Proofs.Disk.Place

/-!
# The files of a disk

`Disk.fileAt` says which files a disk has.  Making folders changes no file
(`Disk.fileAt_makeFolders`), and writing changes the one that the path leads to
(`Disk.exists_place_of_write`).

What is on a disk already need not be made again: folders that are there are left alone
(`Disk.makeFolders_of_isMade`), and a file that has been written can be written again, which
makes no new file (`Disk.exists_write_of_isWritten`).
-/

namespace PageLoom

namespace Entry

/-! ## Files below an entry -/

/-- The content of the file at a place. -/
def file? (e : Entry) (place : List String) : Option ByteArray :=
  match e.at? place with
  | some (.file bytes) => some bytes
  | _ => none

theorem file?_eq_some_iff {e : Entry} {place : List String} {bytes : ByteArray} :
    e.file? place = some bytes ↔ e.at? place = some (.file bytes) := by
  rw [file?]
  split
  next b hb => rw [hb, Option.some_inj, Option.some_inj, file.injEq]
  next hne =>
    constructor
    · intro h
      cases h
    · intro h
      exact absurd h (hne bytes)

theorem file?_eq_none_of_at? {e : Entry} {place : List String} (h : e.at? place = none) :
    e.file? place = none := by rw [file?, h]

theorem file?_folder_cons (es : List (String × Entry)) (name : String) (rest : List String) :
    (folder es).file? (name :: rest) = (lookupName name es).bind fun child => child.file? rest := by
  rw [file?, at?, entries]
  cases lookupName name es <;> rfl

/-- What an entry is besides what is in it: the content of a file, and nothing for a folder. -/
def own : Entry → Option ByteArray
  | .file bytes => some bytes
  | .folder _ => none

/-- What stands at a place, besides what is below it. -/
def standing (e : Entry) (place : List String) : Option (Option ByteArray) := (e.at? place).map own

theorem file?_eq_join_standing (e : Entry) (place : List String) :
    e.file? place = (e.standing place).join := by
  rw [file?, standing]
  cases e.at? place with
  | none => rfl
  | some x => cases x <;> rfl

theorem standing_folder_cons (es : List (String × Entry)) (name : String) (rest : List String) :
    (folder es).standing (name :: rest) =
      (lookupName name es).bind fun child => child.standing rest := by
  rw [standing, at?, entries]
  cases lookupName name es <;> rfl

/-- Putting an entry into a folder changes what stands at its place and below. -/
theorem standing_put {e new : Entry} {place other : List String} {name : String}
    {es : List (String × Entry)} (h : e.at? place = some (.folder es)) :
    (e.put (place ++ [name]) new).standing other =
      if place ++ [name] <+: other then new.standing (other.drop (place.length + 1))
      else e.standing other := by
  induction place generalizing e other with
  | nil =>
      cases h
      cases other with
      | nil => rfl
      | cons o other =>
          rw [List.nil_append, put, standing_folder_cons, lookupName_insertName]
          by_cases ho : name = o
          · subst ho
            rw [if_pos rfl, if_pos (List.cons_prefix_cons.mpr ⟨rfl, List.nil_prefix⟩)]
            rfl
          · rw [if_neg ho, if_neg fun hpre => ho (List.cons_prefix_cons.mp hpre).1,
              standing_folder_cons]
  | cons first place ih =>
      cases e with
      | file bytes => cases h
      | folder es' =>
          rw [at?, entries] at h
          obtain ⟨child, hchild, hat⟩ := Option.bind_eq_some_iff.mp h
          have hput : (Entry.folder es').put (first :: place ++ [name]) new =
              .folder (insertName first (child.put (place ++ [name]) new) es') := by
            cases place <;> simp only [List.cons_append, List.nil_append, put, hchild]
          rw [hput]
          cases other with
          | nil => rw [if_neg (by simp)]; rfl
          | cons o other =>
              rw [standing_folder_cons, standing_folder_cons, lookupName_insertName,
                List.length_cons, List.drop_succ_cons]
              by_cases ho : first = o
              · subst ho
                rw [if_pos rfl, hchild, Option.bind_some, Option.bind_some, ih hat]
                simp only [List.cons_append, List.cons_prefix_cons, true_and]
              · have hpre : ¬ first :: place ++ [name] <+: o :: other := fun hpre =>
                  ho (List.cons_prefix_cons.mp hpre).1
                rw [if_neg ho, if_neg hpre]

/-- Putting an entry into a folder changes the files at its place and below. -/
theorem file?_put {e new : Entry} {place other : List String} {name : String}
    {es : List (String × Entry)} (h : e.at? place = some (.folder es)) :
    (e.put (place ++ [name]) new).file? other =
      if place ++ [name] <+: other then new.file? (other.drop (place.length + 1))
      else e.file? other := by
  simp only [file?_eq_join_standing, standing_put h]
  split <;> rfl

/-- A new folder brings no file and hides none. -/
theorem file?_put_folder {e : Entry} {place other : List String} {name : String}
    {es : List (String × Entry)} (h : e.at? place = some (.folder es))
    (hname : lookupName name es = none) :
    (e.put (place ++ [name]) (.folder [])).file? other = e.file? other := by
  rw [file?_put h]
  split
  next hpre =>
    obtain ⟨rest, rfl⟩ := hpre
    have hnone : e.at? (place ++ [name] ++ rest) = none := by
      rw [List.append_assoc, at?_append, h, Option.bind_some, List.singleton_append, at?, entries,
        hname]
      rfl
    rw [file?_eq_none_of_at? hnone]
    cases (place ++ [name] ++ rest).drop (place.length + 1) <;> rfl
  next => rfl

theorem exists_folder_of_at? {e x : Entry} {place : List String} {name : String}
    (h : e.at? (place ++ [name]) = some x) :
    ∃ es, e.at? place = some (.folder es) ∧ lookupName name es = some x := by
  rw [at?_append] at h
  obtain ⟨y, hy, hx⟩ := Option.bind_eq_some_iff.mp h
  cases y with
  | file bytes => cases hx
  | folder es =>
      rw [at?, entries] at hx
      obtain ⟨z, hz, hlast⟩ := Option.bind_eq_some_iff.mp hx
      cases hlast
      exact ⟨es, hy, hz⟩

/-- A spot is in a folder, which has a file by its name or nothing. -/
theorem IsSpot.exists_folder {e : Entry} {place : List String} {name : String}
    (h : e.IsSpot (place ++ [name])) : ∃ es, e.at? place = some (.folder es) ∧
      ∀ x, lookupName name es = some x → x.isFolder = false := by
  rcases h with ⟨old, hold⟩ | ⟨folder, name', es, hplace, hes, hname⟩
  · obtain ⟨es, hes, hold⟩ := exists_folder_of_at? hold
    refine ⟨es, hes, fun x hx => ?_⟩
    cases hold.symm.trans hx
    rfl
  · obtain ⟨rfl, hlast⟩ := List.append_inj' hplace rfl
    cases hlast
    refine ⟨es, hes, fun x hx => ?_⟩
    cases hname.symm.trans hx

/-- Nothing is below a spot. -/
theorem IsSpot.file?_below {e : Entry} {place rest : List String} {name next : String}
    (h : e.IsSpot (place ++ [name])) : e.file? (place ++ [name] ++ next :: rest) = none := by
  obtain ⟨es, hes, hname⟩ := h.exists_folder
  refine file?_eq_none_of_at? ?_
  rw [List.append_assoc, at?_append, hes, Option.bind_some, List.singleton_append, at?, entries]
  cases hx : lookupName name es with
  | none => rfl
  | some x =>
      have hfile := hname x hx
      cases x with
      | file bytes => rfl
      | folder es' => cases hfile

/-- Putting a file changes no other file. -/
theorem IsSpot.file?_put {e : Entry} {place : List String} (h : e.IsSpot place)
    (bytes : ByteArray) (other : List String) :
    (e.put place (.file bytes)).file? other =
      if other = place then some bytes else e.file? other := by
  rcases List.eq_nil_or_concat place with rfl | ⟨folder, name, rfl⟩
  · rcases h with ⟨old, hold⟩ | ⟨folder, name, es, hplace, -⟩
    · cases hold
      cases other <;> rfl
    · simp at hplace
  rw [List.concat_eq_append] at h ⊢
  obtain ⟨es, hes, -⟩ := h.exists_folder
  rw [Entry.file?_put hes]
  by_cases hpre : folder ++ [name] <+: other
  · obtain ⟨rest, rfl⟩ := hpre
    have hdrop : (folder ++ [name] ++ rest).drop (folder.length + 1) = rest := by
      rw [List.drop_left' (by rw [List.length_append]; rfl)]
    rw [if_pos (List.prefix_append _ _), hdrop]
    cases rest with
    | nil =>
        rw [List.append_nil, if_pos rfl]
        rfl
    | cons r rest =>
        rw [if_neg (by simp), h.file?_below]
        rfl
  · have hne : other ≠ folder ++ [name] := by
      rintro rfl
      exact hpre List.prefix_rfl
    rw [if_neg hpre, if_neg hne]

/-! ## Following parts of a path -/

/-- A path leads to an entry if its first part leads somewhere, and the rest from there to the
entry. -/
theorem follow_append_eq_taken_iff {top e : Entry} {place xs ys spot : List String} :
    top.follow place (xs ++ ys) = .ok (.taken spot e) ↔ ∃ mid x,
      top.follow place xs = .ok (.taken mid x) ∧
      top.follow mid.reverse ys = .ok (.taken spot e) := by
  induction xs generalizing place with
  | nil =>
      rw [List.nil_append, follow]
      constructor
      · intro h
        obtain ⟨x, hx⟩ : ∃ x, top.at? place.reverse = some x := by
          cases hx : top.at? place.reverse with
          | some x => exact ⟨x, rfl⟩
          | none => cases ys <;> (rw [follow, hx] at h; cases h)
        exact ⟨place.reverse, x, by rw [hx], by rwa [List.reverse_reverse]⟩
      · rintro ⟨mid, x, hmid, h⟩
        split at hmid
        · cases hmid
          rwa [List.reverse_reverse] at h
        · cases hmid
  | cons s xs ih =>
      have hnot : ∀ {r : Except DiskError Spot}, (∀ mid x, r ≠ .ok (.taken mid x)) →
          ∀ {r' : Except DiskError Spot}, (∀ mid x, r' ≠ .ok (.taken mid x)) →
          (r = .ok (.taken spot e) ↔ ∃ mid x, r' = .ok (.taken mid x) ∧
            top.follow mid.reverse ys = .ok (.taken spot e)) :=
        fun hr _ hr' => ⟨fun h => absurd h (hr _ _), fun h => by
          obtain ⟨mid, x, hmid, -⟩ := h
          exact absurd hmid (hr' mid x)⟩
      rw [List.cons_append, follow, follow]
      cases top.at? place.reverse with
      | none => exact hnot (fun _ _ h => by cases h) fun _ _ h => by cases h
      | some x =>
          cases x with
          | file bytes => exact hnot (fun _ _ h => by cases h) fun _ _ h => by cases h
          | folder es =>
              dsimp only
              split
              · exact ih
              split
              · exact ih
              split
              · exact hnot (fun _ _ h => by cases h) fun _ _ h => by cases h
              split
              · exact ih
              · refine hnot (fun _ _ h => ?_) fun _ _ h => ?_
                · split at h <;> cases h
                · split at h <;> cases h

/-- Segments that are empty stay in a folder. -/
theorem follow_empty {top : Entry} {place idle : List String} {es : List (String × Entry)}
    (hidle : ∀ s ∈ idle, s = "") (hes : top.at? place.reverse = some (.folder es)) :
    top.follow place idle = .ok (.taken place.reverse (.folder es)) := by
  induction idle with
  | nil => rw [follow, hes]
  | cons s idle ih =>
      rw [List.forall_mem_cons] at hidle
      rw [follow, hes]
      dsimp only
      rw [if_pos (.inl hidle.1)]
      exact ih hidle.2

end Entry

namespace Disk

/-- The content of the file at a place. -/
def fileAt (d : Disk) (place : List String) : Option ByteArray := d.top.file? place

theorem fileAt_of_locate {d : Disk} {p : Path} {place : List String} {bytes : ByteArray}
    (h : d.locate p = .ok (place, .file bytes)) : d.fileAt place = some bytes :=
  Entry.file?_eq_some_iff.mpr (at?_of_locate h)

/-! ## Making folders -/

theorem fileAt_makeFolder {d d' : Disk} {p : Path} (h : d.makeFolder p = .ok d')
    (place : List String) : d'.fileAt place = d.fileAt place := by
  rw [makeFolder] at h
  split at h
  next spot hfree =>
    cases h
    obtain ⟨hplace, -⟩ := followFrom_eq_ok hfree
    obtain ⟨folder, name, es, rfl, hes, hname⟩ := Entry.of_follow_eq_free hplace
    exact Entry.file?_put_folder hes hname
  next => cases h
  next => cases h

/-- Making folders changes no file, whether it succeeds or not. -/
theorem fileAt_makeFoldersFrom (folders : List Path) (d : Disk) (place : List String) :
    (d.makeFoldersFrom folders).2.fileAt place = d.fileAt place := by
  induction folders generalizing d with
  | nil => rfl
  | cons p folders ih =>
      rw [makeFoldersFrom]
      split
      next => rfl
      split
      next hmade => exact fileAt_makeFolder hmade place
      next =>
        have hbelow := ih d
        split
        next d₁ h₁ =>
          rw [h₁] at hbelow
          exact hbelow
        next d₁ h₁ =>
          rw [h₁] at hbelow
          split
          next hmade => exact (fileAt_makeFolder hmade place).trans hbelow
          next => exact hbelow
      next => rfl

/-- Making folders changes no file, however far it gets. -/
theorem fileAt_makeFolders {d d' : Disk} {p : Path} {r : Except DiskError Unit}
    (h : d.makeFolders p = (r, d')) (place : List String) : d'.fileAt place = d.fileAt place := by
  have hplace := fileAt_makeFoldersFrom (p :: p.folders) d place
  rw [makeFolders] at h
  rw [h] at hplace
  exact hplace

theorem hasFolder_iff {d : Disk} {p : Path} :
    d.hasFolder p = true ↔ ∃ place es, d.locate p = .ok (place, .folder es) := by
  rw [hasFolder]
  split
  next h => simp [h]
  next hne =>
    simp only [Bool.false_eq_true, false_iff, not_exists]
    exact fun place es h => hne place es h

/-- A path that leads to a folder goes on leading to one. -/
theorem Grows.hasFolder {d d' : Disk} (hg : d.Grows d') {p : Path} (h : d.hasFolder p = true) :
    d'.hasFolder p = true := by
  obtain ⟨place, es, hf⟩ := hasFolder_iff.mp h
  obtain ⟨e, he, hk⟩ := hg.locate hf
  cases e with
  | folder es' => exact hasFolder_iff.mpr ⟨place, es', he⟩
  | file bytes => cases hk

/-- What has to be made is there if its path leads to a folder. -/
theorem exists_followToMake_of_hasFolder {d : Disk} {p : Path} (h : d.hasFolder p = true) :
    ∃ place e, d.followToMake p = .ok (.taken place e) := by
  obtain ⟨place, es, hlocate⟩ := hasFolder_iff.mp h
  obtain ⟨hstart, hfrom⟩ := followFrom_eq_ok (locate_eq_ok_iff.mp hlocate)
  obtain ⟨segments, idle, hp, hstripped, -⟩ := exists_segments_eq p
  rw [hp] at hstart
  obtain ⟨mid, x, hmid, -⟩ := Entry.follow_append_eq_taken_iff.mp hstart
  exact ⟨mid, x, by rw [followToMake, hstripped, hfrom d rfl, hmid]⟩

theorem hasFolder_of_makeFolder {d d' : Disk} {p : Path} (h : d.makeFolder p = .ok d') :
    d'.hasFolder p = true := by
  have hgrows := grows_makeFolder h
  obtain ⟨segments, idle, hp, hstripped, hidle, hlast⟩ := exists_segments_eq p
  rw [makeFolder, followToMake, hstripped] at h
  split at h
  next place hfree =>
    obtain ⟨hplace, hfrom⟩ := followFrom_eq_ok hfree
    obtain ⟨folder, name, es, rfl, hes, hname⟩ := Entry.of_follow_eq_free hplace
    cases h
    have hput := @Entry.at?_put (.folder []) _ _ name _ hes
    refine hasFolder_iff.mpr ⟨folder ++ [name], [], locate_eq_ok_iff.mpr ?_⟩
    rw [follow, hp]
    refine (hfrom ⟨d.top.put (folder ++ [name]) (.folder []), d.here⟩ rfl).trans ?_
    refine Entry.follow_append_eq_taken_iff.mpr
      ⟨_, _, hgrows.2.follow_free hlast hplace hput, ?_⟩
    rw [Entry.follow_empty hidle (by rwa [List.reverse_reverse]), List.reverse_reverse]
  next => cases h
  next => cases h

/-- Nothing has to be made for the folder at a path: it is there, or the path is empty. -/
def IsMade (d : Disk) (p : Path) : Prop := p.text.isEmpty = true ∨ d.hasFolder p = true

/-- A folder that is there stays there as the disk grows. -/
theorem Grows.isMade {d d' : Disk} (hg : d.Grows d') {p : Path} (h : d.IsMade p) : d'.IsMade p :=
  h.imp_right hg.hasFolder

theorem makeFoldersFrom_of_isMade {d : Disk} {p : Path} {folders : List Path} (h : d.IsMade p) :
    d.makeFoldersFrom (p :: folders) = (.ok (), d) := by
  rw [makeFoldersFrom]
  by_cases hempty : p.text.isEmpty = true
  · rw [if_pos hempty]
  · have hfolder := h.resolve_left hempty
    obtain ⟨place, e, htaken⟩ := exists_followToMake_of_hasFolder hfolder
    rw [if_neg hempty, makeFolder, htaken]
    simp only [if_pos hfolder]

/-- Making folders that are there changes nothing. -/
theorem makeFolders_of_isMade {d : Disk} {p : Path} (h : d.IsMade p) :
    d.makeFolders p = (.ok (), d) := makeFoldersFrom_of_isMade h

/-- Folders that could be made are there. -/
theorem isMade_of_makeFolders {d d' : Disk} {p : Path} (h : d.makeFolders p = (.ok (), d')) :
    d'.IsMade p := by
  rw [makeFolders, makeFoldersFrom] at h
  split at h
  next hempty => exact .inl hempty
  refine .inr ?_
  split at h
  next hmade =>
    cases h
    exact hasFolder_of_makeFolder hmade
  next =>
    split at h
    next => cases h
    next =>
      split at h
      next hmade =>
        cases h
        exact hasFolder_of_makeFolder hmade
      next =>
        split at h
        next hfolder =>
          cases h
          exact hfolder
        next => cases h
  next =>
    split at h
    next hfolder =>
      cases h
      exact hfolder
    next => cases h

/-- Make the folder that a file is in. -/
def makeFolderOf (d : Disk) (p : Path) : Except DiskError Unit × Disk :=
  match p.folder? with
  | some folder => d.makeFolders folder
  | none => (.ok (), d)

/-- Nothing has to be made for the folder that a file is in. -/
def IsMadeFor (d : Disk) (p : Path) : Prop := ∀ folder, p.folder? = some folder → d.IsMade folder

theorem Grows.isMadeFor {d d' : Disk} (hg : d.Grows d') {p : Path} (h : d.IsMadeFor p) :
    d'.IsMadeFor p := fun folder hfolder => hg.isMade (h folder hfolder)

theorem makeFolderOf_of_isMadeFor {d : Disk} {p : Path} (h : d.IsMadeFor p) :
    d.makeFolderOf p = (.ok (), d) := by
  rw [makeFolderOf]
  split
  next folder hfolder => exact makeFolders_of_isMade (h folder hfolder)
  next => rfl

/-- Making the folder of a file changes no file. -/
theorem fileAt_makeFolderOf {d d' : Disk} {p : Path} {r : Except DiskError Unit}
    (h : d.makeFolderOf p = (r, d')) (place : List String) : d'.fileAt place = d.fileAt place := by
  rw [makeFolderOf] at h
  split at h
  next => exact fileAt_makeFolders h place
  next => cases h; rfl

/-- Making the folder of a file adds to the disk and leaves it ready for the file. -/
theorem of_makeFolderOf_eq_ok {d d' : Disk} {p : Path} (h : d.makeFolderOf p = (.ok (), d')) :
    d.Grows d' ∧ d'.IsMadeFor p := by
  rw [makeFolderOf] at h
  split at h
  next folder hfolder =>
    refine ⟨grows_makeFoldersFrom h, fun other hother => ?_⟩
    cases hfolder.symm.trans hother
    exact isMade_of_makeFolders h
  next hnone =>
    cases h
    refine ⟨.refl d, fun folder hfolder => ?_⟩
    cases hnone.symm.trans hfolder

/-! ## Writing -/

/-- Writing changes one file. -/
theorem exists_place_of_write {d d' : Disk} {p : Path} {bytes : ByteArray}
    (h : d.write p bytes = .ok d') : ∃ place, d'.locate p = .ok (place, .file bytes) ∧
      ∀ other, d'.fileAt other = if other = place then some bytes else d.fileAt other := by
  obtain ⟨place, hspot, rfl, hfile⟩ := exists_spot_of_write h
  exact ⟨place, hfile, hspot.file?_put bytes⟩

/-- The same places are those of files. -/
def SameFiles (d d' : Disk) : Prop :=
  ∀ place, (d'.fileAt place).isSome = (d.fileAt place).isSome

theorem SameFiles.trans {a b c : Disk} (hab : a.SameFiles b) (hbc : b.SameFiles c) :
    a.SameFiles c := fun place => (hbc place).trans (hab place)

/-- A path that a file can be written to, and that has one already. -/
def IsWritten (d : Disk) (p : Path) : Prop :=
  d.hasFile p = true ∧ p.segments.getLast? ≠ some ""

theorem Grows.isWritten {d d' : Disk} (hg : d.Grows d') {p : Path} (h : d.IsWritten p) :
    d'.IsWritten p := ⟨hg.hasFile h.1, h.2⟩

theorem isWritten_of_write {d d' : Disk} {p : Path} {bytes : ByteArray}
    (h : d.write p bytes = .ok d') : d'.IsWritten p := by
  refine ⟨(of_write h).2, fun hlast => ?_⟩
  rw [write] at h
  split at h
  next => cases h
  next => cases h
  next => rw [if_pos hlast] at h; cases h
  next => rw [if_pos hlast] at h; cases h

/-- A file that is there can be written again. -/
theorem exists_write_of_isWritten {d : Disk} {p : Path} (h : d.IsWritten p) (bytes : ByteArray) :
    ∃ d', d.write p bytes = .ok d' ∧ d.SameFiles d' := by
  obtain ⟨place, old, hlocate⟩ := hasFile_iff.mp h.1
  have hfollow := locate_eq_ok_iff.mp hlocate
  have hplace := at?_of_locate hlocate
  refine ⟨{ d with top := d.top.put place (.file bytes) }, ?_, fun other => ?_⟩
  · rw [write, followToMake_eq d h.2, hfollow]
    exact if_neg h.2
  · have hother := Entry.IsSpot.file?_put (.inl ⟨old, hplace⟩) bytes other
    rw [fileAt, hother]
    split
    next heq => rw [heq, fileAt, Entry.file?_eq_some_iff.mpr hplace]; rfl
    next => rfl

end Disk

end PageLoom
