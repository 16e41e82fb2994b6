import PageLoom.Proofs.Disk.Files

/-!
# Removing and copying

Removing a folder changes no file that is not below its place (`Disk.fileAt_removeFolder`), and
paths that do not go up lead to other folders as before (`Disk.hasFolder_removeFolder`).  A file
is copied by emptying the target before the source is read, so a copy has what was in its
source only if the two have different places (`Disk.of_copy_eq_ok`).
-/

namespace PageLoom

/-! ## Removing -/

theorem lookupName_filter_of_ne {α : Type} {name other : String} (hne : other ≠ name)
    (entries : List (String × α)) :
    lookupName other (entries.filter (·.1 != name)) = lookupName other entries := by
  induction entries with
  | nil => rfl
  | cons x entries ih =>
      by_cases hx : x.1 = name
      · rw [List.filter_cons_of_neg (by simp [hx]), ih, lookupName, if_neg (hx ▸ hne.symm)]
      · rw [List.filter_cons_of_pos (by simp [hx]), lookupName, lookupName, ih]

namespace Entry

/-- Removing what is at a place changes nothing that is not below. -/
theorem standing_remove {e : Entry} {place other : List String} (h : ¬ place <+: other) :
    (e.remove place).standing other = e.standing other := by
  induction place generalizing e other with
  | nil => exact absurd List.nil_prefix h
  | cons name place ih =>
      cases e with
      | file bytes => rfl
      | folder entries =>
          cases other with
          | nil =>
              cases place with
              | nil => rfl
              | cons next rest =>
                  simp only [remove]
                  split <;> rfl
          | cons o other =>
              rw [List.cons_prefix_cons, not_and] at h
              cases place with
              | nil =>
                  rw [remove, standing_folder_cons, standing_folder_cons,
                    lookupName_filter_of_ne fun ho => h ho.symm List.nil_prefix]
              | cons next rest =>
                  simp only [remove]
                  split
                  next child hchild =>
                    rw [standing_folder_cons, standing_folder_cons, lookupName_insertName]
                    split
                    next ho =>
                      subst ho
                      rw [hchild, Option.bind_some, Option.bind_some, ih (h rfl)]
                    next => rfl
                  next => rfl

theorem exists_at?_of_standing {top top' e : Entry} {place : List String}
    (hsame : top'.standing place = top.standing place) (h : top.at? place = some e) :
    ∃ e', top'.at? place = some e' ∧ e'.own = e.own := by
  rw [standing, standing, h] at hsame
  exact Option.map_eq_some_iff.mp hsame

theorem exists_folder_of_own {e : Entry} {entries : List (String × Entry)}
    (h : e.own = (folder entries).own) : ∃ entries', e = .folder entries' := by
  cases e with
  | file bytes => cases h
  | folder entries' => exact ⟨entries', rfl⟩

/-- Segments that do not go up lead to the same place if the same stands on the way. -/
theorem follow_of_standing {top top' e : Entry} {place segments spot : List String}
    (hup : ".." ∉ segments) (h : top.follow place segments = .ok (.taken spot e))
    (hsame : ∀ front, front <+: spot → top'.standing front = top.standing front) :
    place.reverse <+: spot ∧
      ∃ e', top'.follow place segments = .ok (.taken spot e') ∧ e'.own = e.own := by
  induction segments generalizing place with
  | nil =>
      obtain rfl : spot = place.reverse := place_of_follow h
      obtain ⟨e', he', hown⟩ := exists_at?_of_standing (hsame _ List.prefix_rfl) (at?_of_follow h)
      exact ⟨List.prefix_rfl, e', by rw [follow, he'], hown⟩
  | cons s rest ih =>
      rw [List.mem_cons, not_or] at hup
      rw [follow] at h
      split at h
      next => cases h
      next => cases h
      next entries hentries =>
        have hfolder : place.reverse <+: spot →
            ∃ entries', top'.at? place.reverse = some (.folder entries') := fun hpre => by
          obtain ⟨e', he', hown⟩ := exists_at?_of_standing (hsame _ hpre) hentries
          obtain ⟨entries', rfl⟩ := exists_folder_of_own hown
          exact ⟨entries', he'⟩
        by_cases hidle : s = "" ∨ s = "."
        · rw [if_pos hidle] at h
          obtain ⟨hpre, hfollow⟩ := ih hup.2 h
          obtain ⟨entries', hentries'⟩ := hfolder hpre
          refine ⟨hpre, ?_⟩
          rw [follow, hentries']
          simp only [if_pos hidle]
          exact hfollow
        rw [if_neg hidle, if_neg (Ne.symm hup.1)] at h
        split at h
        next => cases h
        next hlong =>
          split at h
          next hin =>
            obtain ⟨x, hx⟩ := Option.isSome_iff_exists.mp hin
            obtain ⟨hpre, hfollow⟩ := ih hup.2 h
            have hat : top.at? (place.reverse ++ [s]) = some x := by
              rw [at?_append, hentries]
              simp [at?, Entry.entries, hx]
            rw [List.reverse_cons] at hpre
            obtain ⟨y, hy, -⟩ := exists_at?_of_standing (hsame _ hpre) hat
            refine ⟨(List.prefix_append _ _).trans hpre, ?_⟩
            rw [follow_name hidle (Ne.symm hup.1) hlong hy]
            exact hfollow
          next => split at h <;> cases h

end Entry

namespace Disk

theorem here_removeFolder {d d' : Disk} {p : Path} (h : d.removeFolder p = .ok d') :
    d'.here = d.here := by
  rw [removeFolder] at h
  split at h
  next => cases h
  next => cases h
  next =>
    cases h
    rfl

theorem fileAt_removeFolder {d d' : Disk} {p : Path} (h : d.removeFolder p = .ok d')
    {place : List String} (hplace : ¬ d.placeOf p <+: place) :
    d'.fileAt place = d.fileAt place := by
  rw [removeFolder] at h
  split at h
  next => cases h
  next => cases h
  next removed entries hlocate =>
    cases h
    obtain rfl : removed = d.placeOf p := eq_placeOf_of_locate hlocate
    rw [fileAt, fileAt, Entry.file?_eq_join_standing, Entry.file?_eq_join_standing,
      Entry.standing_remove hplace]

/-- Removing a folder leaves another one where it is, if the path to that one does not go up. -/
theorem hasFolder_removeFolder {d d' : Disk} {p q : Path} (h : d.removeFolder p = .ok d')
    (hq : d.hasFolder q = true) (hup : ".." ∉ q.segments) (hplace : ¬ d.placeOf p <+: d.placeOf q) :
    d'.hasFolder q = true := by
  rw [removeFolder] at h
  split at h
  next => cases h
  next => cases h
  next removed entries hlocate =>
    cases h
    obtain rfl : removed = d.placeOf p := eq_placeOf_of_locate hlocate
    obtain ⟨place, es, hlocate⟩ := hasFolder_iff.mp hq
    obtain rfl : place = d.placeOf q := eq_placeOf_of_locate hlocate
    obtain ⟨hfollow, hfrom⟩ := followFrom_eq_ok (locate_eq_ok_iff.mp hlocate)
    obtain ⟨-, e', he', hown⟩ := Entry.follow_of_standing hup hfollow fun front hfront =>
      Entry.standing_remove fun hpre => hplace (hpre.trans hfront)
    obtain ⟨entries', rfl⟩ := Entry.exists_folder_of_own hown
    have hrest : Disk.follow ⟨d.top.remove (d.placeOf p), d.here⟩ q =
        (d.top.remove (d.placeOf p)).follow (d.start q) q.segments := hfrom _ rfl
    exact hasFolder_iff.mpr ⟨_, entries', locate_eq_ok_iff.mpr (hrest.trans he')⟩

/-! ## Copying -/

theorem read_eq_ok_iff {d : Disk} {p : Path} {bytes : ByteArray} :
    d.read p = .ok bytes ↔ ∃ place, d.locate p = .ok (place, .file bytes) := by
  rw [read]
  split
  next place old hfile => simp [hfile]
  next place entries hfolder => simp [hfolder]
  next e herror => simp [herror]

/-- A folder is not a file. -/
theorem fileAt_placeOf_of_hasFolder {d : Disk} {p : Path} (h : d.hasFolder p = true) :
    d.fileAt (d.placeOf p) = none := by
  obtain ⟨place, entries, hlocate⟩ := hasFolder_iff.mp h
  rw [← eq_placeOf_of_locate hlocate, fileAt, Entry.file?, at?_of_locate hlocate]

theorem fileAt_of_read {d : Disk} {p : Path} {bytes : ByteArray} (h : d.read p = .ok bytes) :
    d.fileAt (d.placeOf p) = some bytes := by
  obtain ⟨place, hlocate⟩ := read_eq_ok_iff.mp h
  rw [← eq_placeOf_of_locate hlocate]
  exact fileAt_of_locate hlocate

/-- A path that leads to a file goes on leading to a file, with what is at its place then. -/
theorem Grows.read {d d' : Disk} (hg : d.Grows d') {p : Path} {old bytes : ByteArray}
    (h : d.read p = .ok old) (hbytes : d'.fileAt (d.placeOf p) = some bytes) :
    d'.read p = .ok bytes := by
  obtain ⟨place, hlocate⟩ := read_eq_ok_iff.mp h
  obtain ⟨e, he, hkind⟩ := hg.locate hlocate
  cases e with
  | folder entries => cases hkind
  | file bytes' =>
      rw [← eq_placeOf_of_locate hlocate, fileAt_of_locate he] at hbytes
      cases hbytes
      exact read_eq_ok_iff.mpr ⟨place, he⟩

/-- A file that has been written can be read, and is the only one that has changed. -/
theorem of_write_eq_ok {d d' : Disk} {p : Path} {bytes : ByteArray}
    (h : d.write p bytes = .ok d') : d.Grows d' ∧ d'.read p = .ok bytes ∧
      ∀ other, d'.fileAt other = if other = d.placeOf p then some bytes else d.fileAt other := by
  obtain ⟨place, hlocate, hothers⟩ := exists_place_of_write h
  have hgrows := (of_write h).1
  refine ⟨hgrows, read_eq_ok_iff.mpr ⟨place, hlocate⟩, ?_⟩
  rwa [eq_placeOf_of_locate hlocate, placeOf_of_here hgrows.1] at hothers

/-- What has been copied can be read, and no other file has changed. -/
theorem of_copy_eq_ok {d d' : Disk} {source target : Path} (h : d.copy source target = .ok d') :
    d.Grows d' ∧ (∀ other, other ≠ d.placeOf target → d'.fileAt other = d.fileAt other) ∧
      ∃ bytes, d'.read target = .ok bytes ∧
        (d.placeOf source ≠ d.placeOf target → d.fileAt (d.placeOf source) = some bytes) := by
  rw [copy] at h
  split at h
  next => cases h
  split at h
  next => cases h
  next d₁ hempty =>
    split at h
    next => cases h
    next bytes hread =>
      obtain ⟨hgrows₁, -, hothers₁⟩ := of_write_eq_ok hempty
      obtain ⟨hgrows, htarget, hothers⟩ := of_write_eq_ok h
      rw [placeOf_of_here hgrows₁.1] at hothers
      refine ⟨hgrows₁.trans hgrows, fun other hne => ?_, bytes, htarget, fun hne => ?_⟩
      · rw [hothers, if_neg hne, hothers₁, if_neg hne]
      · have hsource := fileAt_of_read hread
        rwa [placeOf_of_here hgrows₁.1, hothers₁, if_neg hne] at hsource

end Disk

end PageLoom
