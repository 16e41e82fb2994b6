import PageLoom.Disk.Basic

/-!
# Disks that grow

Making folders and writing files never removes anything: every place that is taken
stays taken, by a file if it was a file and by a folder if it was a folder.  So a path
that leads to a file goes on leading to a file (`Disk.Grows.hasFile`), and a file that
has been written is there (`Disk.of_write`).
-/

namespace PageLoom

namespace Entry

/-! ## Entries -/

/-- Every place that is taken stays taken, by a file or by a folder as before. -/
def Grows (e e' : Entry) : Prop :=
  ∀ place k, (e.at? place).map isFolder = some k → (e'.at? place).map isFolder = some k

theorem Grows.refl (e : Entry) : e.Grows e := fun _ _ h => h

theorem Grows.trans {a b c : Entry} (hab : a.Grows b) (hbc : b.Grows c) : a.Grows c :=
  fun place k h => hbc place k (hab place k h)

theorem Grows.exists_at? {e e' x : Entry} (h : e.Grows e') {place : List String}
    (hx : e.at? place = some x) : ∃ y, e'.at? place = some y ∧ y.isFolder = x.isFolder :=
  Option.map_eq_some_iff.mp (h place x.isFolder (by rw [hx]; rfl))

theorem Grows.insertName {name : String} {child : Entry} {es : List (String × Entry)}
    (h : ∀ x, lookupName name es = some x → x.Grows child) :
    (Entry.folder es).Grows (.folder (insertName name child es)) := by
  intro place k hk
  cases place with
  | nil => exact hk
  | cons o place =>
      rw [at?, entries] at hk ⊢
      rw [lookupName_insertName]
      split
      next ho =>
        subst ho
        cases hx : lookupName name es with
        | none => simp [hx] at hk
        | some x =>
            rw [hx, Option.bind_some] at hk
            exact h x hx place k hk
      next => exact hk

/-- Putting an entry where nothing is, or a file where a file is, keeps all places. -/
theorem grows_put {new : Entry} {place : List String} :
    ∀ {e : Entry}, (∀ x, e.at? place = some x → x.isFolder = false ∧ new.isFolder = false) →
      e.Grows (e.put place new) := by
  induction place with
  | nil =>
      intro e h
      obtain ⟨he, hnew⟩ := h e rfl
      cases e with
      | folder es => cases he
      | file bytes =>
          intro other k hk
          cases other with
          | nil =>
              cases hk
              rw [put, at?, Option.map_some, hnew, isFolder]
          | cons o other => simp [at?, entries, lookupName] at hk
  | cons name place ih =>
      intro e h
      cases e with
      | file bytes => exact .refl _
      | folder es =>
          have below : ∀ child, lookupName name es = some child →
              child.Grows (child.put place new) := fun child hc =>
            ih fun x hx => h x (by rw [at?, entries, hc]; exact hx)
          cases place with
          | nil => exact Grows.insertName below
          | cons next rest =>
              simp only [put]
              cases hc : lookupName name es with
              | none => exact .refl _
              | some child =>
                  refine Grows.insertName fun x hx => ?_
                  cases hc.symm.trans hx
                  exact below child hc

/-- What was put in place of an entry is found. -/
theorem at?_put_of_taken {e x new : Entry} {place : List String} (h : e.at? place = some x) :
    (e.put place new).at? place = some new := by
  rcases List.eq_nil_or_concat place with rfl | ⟨folder, name, rfl⟩
  · simp [put, at?]
  · rw [List.concat_eq_append, at?_append] at h
    obtain ⟨y, hy, hx⟩ := Option.bind_eq_some_iff.mp h
    cases y with
    | file bytes => simp [at?, entries, lookupName] at hx
    | folder es => exact List.concat_eq_append ▸ at?_put hy

/-- A place where a file can be put: that of a file, or a name that is not in its folder. -/
def IsSpot (e : Entry) (place : List String) : Prop :=
  (∃ old, e.at? place = some (.file old)) ∨
    ∃ folder name es, place = folder ++ [name] ∧ e.at? folder = some (.folder es) ∧
      lookupName name es = none

theorem IsSpot.grows {e : Entry} {place : List String} (h : e.IsSpot place) (bytes : ByteArray) :
    e.Grows (e.put place (.file bytes)) := by
  refine grows_put fun x hx => ?_
  rcases h with ⟨old, hold⟩ | ⟨folder, name, es, rfl, hes, hname⟩
  · cases hold.symm.trans hx
    exact ⟨rfl, rfl⟩
  · rw [at?_append, hes] at hx
    simp [at?, entries, hname] at hx

/-! ## Following -/

/-- A name that is in a folder is followed. -/
theorem follow_name {top x : Entry} {place rest : List String} {s : String}
    (hidle : ¬ (s = "" ∨ s = ".")) (hup : s ≠ "..") (hlong : ¬ maxNameBytes < byteLength s.toList)
    (hx : top.at? (place.reverse ++ [s]) = some x) :
    top.follow place (s :: rest) = top.follow (s :: place) rest := by
  rw [at?_append] at hx
  obtain ⟨y, hy, hs⟩ := Option.bind_eq_some_iff.mp hx
  rw [at?] at hs
  obtain ⟨z, hz, -⟩ := Option.bind_eq_some_iff.mp hs
  cases y with
  | file bytes => cases hz
  | folder es =>
      have hin : (lookupName s es).isSome := by
        rw [entries] at hz
        rw [hz]
        rfl
      rw [follow, hy]
      simp only [if_neg hidle, if_neg hup, if_neg hlong, if_pos hin]

/-- What following a segment does: it goes on from some place, in this folder and in
all that it grows to, or it ends with a name that is not there yet, and goes on from
it as soon as it is. -/
theorem follow_cons {top : Entry} {place rest : List String} {s : String} {spot : Spot}
    (h : top.follow place (s :: rest) = .ok spot) :
    (∃ next, top.follow next rest = .ok spot ∧ ∀ top', top.Grows top' →
      top'.follow place (s :: rest) = top'.follow next rest) ∨
    (∃ es, top.at? place.reverse = some (.folder es) ∧ lookupName s es = none ∧
      spot = .free (place.reverse ++ [s]) ∧ rest.all (· == "") ∧
      ∀ (top' x : Entry), top'.at? (place.reverse ++ [s]) = some x →
        top'.follow place (s :: rest) = top'.follow (s :: place) rest) := by
  rw [follow] at h
  split at h
  next => cases h
  next => cases h
  next es hes =>
    have folder : ∀ top', top.Grows top' → ∃ es', top'.at? place.reverse = some (.folder es') :=
      fun top' hg => by
        obtain ⟨y, hy, hk⟩ := hg.exists_at? hes
        cases y with
        | file bytes => cases hk
        | folder es' => exact ⟨es', hy⟩
    by_cases hidle : s = "" ∨ s = "."
    · rw [if_pos hidle] at h
      refine .inl ⟨place, h, fun top' hg => ?_⟩
      obtain ⟨es', hes'⟩ := folder top' hg
      rw [follow, hes']
      exact if_pos hidle
    rw [if_neg hidle] at h
    by_cases hup : s = ".."
    · rw [if_pos hup] at h
      refine .inl ⟨place.tail, h, fun top' hg => ?_⟩
      obtain ⟨es', hes'⟩ := folder top' hg
      rw [follow, hes']
      exact (if_neg hidle).trans (if_pos hup)
    rw [if_neg hup] at h
    split at h
    next => cases h
    next hlong =>
      split at h
      next hin =>
        obtain ⟨x, hx⟩ := Option.isSome_iff_exists.mp hin
        have hat : top.at? (place.reverse ++ [s]) = some x := by
          rw [at?_append, hes]
          simp [at?, entries, hx]
        refine .inl ⟨s :: place, h, fun top' hg => ?_⟩
        obtain ⟨y, hy, -⟩ := hg.exists_at? hat
        exact follow_name hidle hup hlong hy
      next hnew =>
        split at h
        next hrest =>
          cases h
          exact .inr ⟨es, hes, by simpa using hnew, by rw [List.reverse_cons], hrest,
            fun top' x hx => follow_name hidle hup hlong hx⟩
        next => cases h

theorem at?_of_follow {top e : Entry} {segments place spot : List String}
    (h : top.follow place segments = .ok (.taken spot e)) : top.at? spot = some e := by
  induction segments generalizing place with
  | nil =>
      rw [follow] at h
      split at h
      next x hx =>
        cases h
        exact hx
      next => cases h
  | cons s rest ih =>
      rcases follow_cons h with ⟨next, hnext, -⟩ | ⟨-, -, -, hfree, -⟩
      · exact ih hnext
      · cases hfree

/-- A free spot is a name that is not in a folder. -/
theorem of_follow_eq_free {top : Entry} {segments place spot : List String}
    (h : top.follow place segments = .ok (.free spot)) :
    ∃ folder name es, spot = folder ++ [name] ∧ top.at? folder = some (.folder es) ∧
      lookupName name es = none := by
  induction segments generalizing place with
  | nil =>
      rw [follow] at h
      split at h <;> cases h
  | cons s rest ih =>
      rcases follow_cons h with ⟨next, hnext, -⟩ | ⟨es, hes, hs, hfree, -⟩
      · exact ih hnext
      · cases hfree
        exact ⟨place.reverse, s, es, rfl, hes, hs⟩

/-- A path that leads to an entry goes on leading there. -/
theorem Grows.follow_taken {top top' e : Entry} (hg : top.Grows top')
    {segments place spot : List String} (h : top.follow place segments = .ok (.taken spot e)) :
    ∃ e', top'.follow place segments = .ok (.taken spot e') ∧ e'.isFolder = e.isFolder := by
  induction segments generalizing place with
  | nil =>
      rw [follow] at h
      split at h
      next x hx =>
        cases h
        obtain ⟨y, hy, hk⟩ := hg.exists_at? hx
        exact ⟨y, by rw [follow, hy], hk⟩
      next => cases h
  | cons s rest ih =>
      rcases follow_cons h with ⟨next, hnext, hsame⟩ | ⟨-, -, -, hfree, -⟩
      · rw [hsame top' hg]
        exact ih hnext
      · cases hfree

/-- A path that led to a free spot leads to what is put there. -/
theorem Grows.follow_free {top top' e : Entry} (hg : top.Grows top')
    {segments place spot : List String} (hlast : segments.getLast? ≠ some "")
    (h : top.follow place segments = .ok (.free spot)) (he : top'.at? spot = some e) :
    top'.follow place segments = .ok (.taken spot e) := by
  induction segments generalizing place with
  | nil =>
      rw [follow] at h
      split at h <;> cases h
  | cons s rest ih =>
      rcases follow_cons h with ⟨next, hnext, hsame⟩ | ⟨es, hes, hs, hfree, hidle, hsame⟩
      · rw [hsame top' hg]
        refine ih (fun hr => hlast ?_) hnext
        rw [List.getLast?_cons, hr]
        rfl
      · cases hfree
        rw [hsame top' e he]
        -- An idle segment after the name would be the last one.
        have hrest : rest = [] := by
          rcases List.eq_nil_or_concat rest with hr | ⟨front, last, rfl⟩
          · exact hr
          · rw [List.concat_eq_append] at hidle hlast
            have : last = "" := by simpa using (List.all_eq_true.mp hidle) last (by simp)
            rw [this, ← List.cons_append, List.getLast?_concat] at hlast
            exact absurd rfl hlast
        rw [hrest, follow, List.reverse_cons, he]

end Entry

namespace Disk

/-! ## Disks -/

/-- Relative paths start where they did, and all that is taken stays taken. -/
def Grows (d d' : Disk) : Prop := d'.here = d.here ∧ d.top.Grows d'.top

theorem Grows.refl (d : Disk) : d.Grows d := ⟨rfl, .refl _⟩

theorem Grows.trans {a b c : Disk} (hab : a.Grows b) (hbc : b.Grows c) : a.Grows c :=
  ⟨hbc.1.trans hab.1, hab.2.trans hbc.2⟩

/-- Where a path starts, last name first. -/
def start (d : Disk) (p : Path) : List String := if p.isAbsolute then [] else d.here.reverse

/-- A path that leads somewhere is a path that can be followed. -/
theorem followFrom_eq_ok {d : Disk} {p : Path} {segments : List String} {spot : Spot}
    (h : d.followFrom p segments = .ok spot) : d.top.follow (d.start p) segments = .ok spot ∧
      ∀ (d' : Disk) {others : List String}, d'.here = d.here →
        d'.followFrom p others = d'.top.follow (d.start p) others := by
  rw [followFrom] at h
  split at h
  next => cases h
  next hempty =>
    split at h
    next => cases h
    next hnull =>
      refine ⟨h, fun d' others hhere => ?_⟩
      rw [followFrom, if_neg hempty, if_neg hnull, start, hhere]

theorem locate_eq_ok_iff {d : Disk} {p : Path} {place : List String} {e : Entry} :
    d.locate p = .ok (place, e) ↔ d.follow p = .ok (.taken place e) := by
  rw [locate]
  split
  next h => simp [h]
  next h => simp [h]
  next h => simp [h]

/-- What a path leads to is at the place that it leads to. -/
theorem at?_of_locate {d : Disk} {p : Path} {place : List String} {e : Entry}
    (h : d.locate p = .ok (place, e)) : d.top.at? place = some e :=
  Entry.at?_of_follow (followFrom_eq_ok (locate_eq_ok_iff.mp h)).1

/-- A path that leads to an entry goes on leading to its place. -/
theorem Grows.locate {d d' : Disk} (hg : d.Grows d') {p : Path} {place : List String} {e : Entry}
    (h : d.locate p = .ok (place, e)) :
    ∃ e', d'.locate p = .ok (place, e') ∧ e'.isFolder = e.isFolder := by
  obtain ⟨hplace, hsame⟩ := followFrom_eq_ok (locate_eq_ok_iff.mp h)
  obtain ⟨e', he', hk⟩ := hg.2.follow_taken hplace
  exact ⟨e', locate_eq_ok_iff.mpr ((hsame d' hg.1).trans he'), hk⟩

theorem hasFile_iff {d : Disk} {p : Path} :
    d.hasFile p = true ↔ ∃ place bytes, d.locate p = .ok (place, .file bytes) := by
  rw [hasFile]
  split
  next h => simp [h]
  next hne =>
    simp only [Bool.false_eq_true, false_iff, not_exists]
    exact fun place bytes h => hne place bytes h

/-- A path that leads to a file goes on leading to one. -/
theorem Grows.hasFile {d d' : Disk} (hg : d.Grows d') {p : Path} (h : d.hasFile p = true) :
    d'.hasFile p = true := by
  obtain ⟨place, bytes, hf⟩ := hasFile_iff.mp h
  obtain ⟨e, he, hk⟩ := hg.locate hf
  cases e with
  | folder es => cases hk
  | file bytes' => exact hasFile_iff.mpr ⟨place, bytes', he⟩

theorem grows_makeFolder {d d' : Disk} {p : Path} (h : d.makeFolder p = .ok d') : d.Grows d' := by
  rw [makeFolder] at h
  split at h
  next place hfree =>
    cases h
    obtain ⟨hplace, -⟩ := followFrom_eq_ok hfree
    obtain ⟨folder, name, es, rfl, hes, hname⟩ := Entry.of_follow_eq_free hplace
    refine ⟨rfl, Entry.grows_put fun x hx => ?_⟩
    rw [Entry.at?_append, hes] at hx
    simp [Entry.at?, Entry.entries, hname] at hx
  next => cases h
  next => cases h

theorem grows_makeFoldersFrom {folders : List Path} :
    ∀ {d d' : Disk}, d.makeFoldersFrom folders = (.ok (), d') → d.Grows d' := by
  induction folders with
  | nil => intro d d' h; cases h
  | cons p folders ih =>
      intro d d' h
      rw [makeFoldersFrom] at h
      split at h
      next =>
        cases h
        exact .refl d
      split at h
      next hmade =>
        cases h
        exact grows_makeFolder hmade
      next =>
        split at h
        next => cases h
        next hbelow =>
          split at h
          next hmade =>
            cases h
            exact (ih hbelow).trans (grows_makeFolder hmade)
          next =>
            obtain ⟨-, rfl⟩ := Prod.mk.inj h
            exact ih hbelow
      next =>
        obtain ⟨-, rfl⟩ := Prod.mk.inj h
        exact .refl d

theorem followToMake_eq (d : Disk) {p : Path} (hlast : p.segments.getLast? ≠ some "") :
    d.followToMake p = d.follow p := by
  have hdrop : p.segments.reverse.dropWhile (· == "") = p.segments.reverse := by
    rw [← List.head?_reverse] at hlast
    cases hs : p.segments.reverse with
    | nil => rfl
    | cons s rest =>
        rw [hs, List.head?_cons] at hlast
        exact List.dropWhile_cons_of_neg (by simpa using hlast)
  rw [followToMake, hdrop, List.reverse_reverse, follow]

/-- Writing puts the file at the place that the path leads to. -/
theorem exists_spot_of_write {d d' : Disk} {p : Path} {bytes : ByteArray}
    (h : d.write p bytes = .ok d') : ∃ place, d.top.IsSpot place ∧
      d' = { d with top := d.top.put place (.file bytes) } ∧
      d'.locate p = .ok (place, .file bytes) := by
  rw [write] at h
  split at h
  next => cases h
  next => cases h
  next spot old htaken =>
    split at h
    next => cases h
    next hlast =>
      cases h
      rw [followToMake_eq d hlast] at htaken
      obtain ⟨hplace, hsame⟩ := followFrom_eq_ok htaken
      have hspot := Entry.at?_of_follow hplace
      refine ⟨spot, .inl ⟨old, hspot⟩, rfl, ?_⟩
      obtain ⟨e, he, -⟩ := (Entry.IsSpot.grows (.inl ⟨old, hspot⟩) bytes).follow_taken hplace
      cases (Entry.at?_of_follow he).symm.trans (Entry.at?_put_of_taken hspot)
      exact locate_eq_ok_iff.mpr ((hsame ⟨d.top.put spot (.file bytes), d.here⟩ rfl).trans he)
  next spot hfree =>
    split at h
    next => cases h
    next hlast =>
      cases h
      rw [followToMake_eq d hlast] at hfree
      obtain ⟨hplace, hsame⟩ := followFrom_eq_ok hfree
      obtain ⟨folder, name, es, rfl, hes, hname⟩ := Entry.of_follow_eq_free hplace
      have hspot : d.top.IsSpot (folder ++ [name]) := .inr ⟨folder, name, es, rfl, hes, hname⟩
      refine ⟨folder ++ [name], hspot, rfl, ?_⟩
      exact locate_eq_ok_iff.mpr
        ((hsame ⟨d.top.put (folder ++ [name]) (.file bytes), d.here⟩ rfl).trans
          ((hspot.grows bytes).follow_free hlast hplace (Entry.at?_put hes)))

/-- A file that has been written is there, and so is all that was. -/
theorem of_write {d d' : Disk} {p : Path} {bytes : ByteArray} (h : d.write p bytes = .ok d') :
    d.Grows d' ∧ d'.hasFile p = true := by
  obtain ⟨place, hspot, rfl, hfile⟩ := exists_spot_of_write h
  exact ⟨⟨rfl, hspot.grows bytes⟩, hasFile_iff.mpr ⟨place, bytes, hfile⟩⟩

end Disk

end PageLoom
