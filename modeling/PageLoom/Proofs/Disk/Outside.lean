import PageLoom.Proofs.Disk.Descent
import Mathlib.Data.List.Induction

/-!
# What stays outside a folder

A place is below a folder if names lead to it from there.  `Disk.SameOutside` says that all
that is not below a folder stays as it was, and that nothing new stands there.

A path down from a folder through names has the place below it.  So making that path a folder,
with the folders that it is in, changes nothing outside if the folder is there
(`Disk.sameOutside_makeFolders`): the folders that it is in are then either below, or the folder
itself, and what that one is in is never tried.  Writing a file changes what is at its place.
-/

namespace PageLoom

/-! ## Folders of joined paths -/

namespace Path

/-- Only segments that lead nowhere are dropped. -/
theorem exists_dropIdle_eq (segments : List String) : ∃ idle, segments = idle ++ dropIdle segments ∧
    ∀ s ∈ idle, s = "" ∨ s = "." := by
  induction segments with
  | nil => exact ⟨[], rfl, by simp⟩
  | cons s rest ih =>
      rw [dropIdle]
      split
      next hs =>
        obtain ⟨idle, hrest, hidle⟩ := ih
        refine ⟨s :: idle, by rw [List.cons_append, ← hrest], ?_⟩
        exact List.forall_mem_cons.mpr ⟨hs.imp_right And.left, hidle⟩
      next => exact ⟨[], rfl, by simp⟩

theorem dropIdle_append {names rest : List String} (hne : names ≠ [])
    (h : ∀ name ∈ names, IsEntryName name ∧ name ≠ "." ∧ name ≠ "..") :
    dropIdle (names.reverse ++ rest) = names.reverse ++ rest := by
  rcases List.eq_nil_or_concat names with rfl | ⟨front, last, rfl⟩
  · exact absurd rfl hne
  · obtain ⟨hname, hdot, -⟩ := h last (by simp)
    rw [List.concat_eq_append, List.reverse_append, List.reverse_singleton, List.singleton_append,
      List.cons_append, dropIdle, if_neg]
    rintro (hempty | ⟨hs, -⟩)
    · exact hname.1 hempty
    · exact hdot hs

/-- The folder that a path down from a folder is in comes first among those that it is in. -/
theorem folders_joinAll_append (p : Path) {names : List String} {name : String}
    (hne : names ≠ []) (h : ∀ n ∈ names ++ [name], IsEntryName n ∧ n ≠ "." ∧ n ≠ "..") :
    (p.joinAll (names ++ [name])).folders = p.joinAll names :: (p.joinAll names).folders := by
  have hnames : ∀ n ∈ names, IsEntryName n ∧ n ≠ "." ∧ n ≠ ".." := fun n hn =>
    h n (List.mem_append_left _ hn)
  obtain ⟨hname, hdot, -⟩ := h name (by simp)
  obtain ⟨front, -, -, -, hfront⟩ := p.exists_segments_joinAll
  have hsegments := hfront names hne fun n hn => (hnames n hn).1
  have habs := p.isAbsolute_joinAll hne fun n hn => (hnames n hn).1
  have hidle : ¬ (name = "" ∨ (name = "." ∧ names.reverse ++ front.reverse ≠ [])) := by
    rintro (hempty | ⟨hs, -⟩)
    · exact hname.1 hempty
    · exact hdot hs
  rw [folders, folders, habs, p.isAbsolute_joinAll (by simp) fun n hn => (h n hn).1, hsegments,
    hfront _ (by simp) fun n hn => (h n hn).1, ← List.append_assoc, List.reverse_append,
    List.reverse_append, List.reverse_singleton, List.singleton_append, foldersFrom, if_neg hidle,
    dropIdle_append hne hnames]
  congr 1
  rw [ofReversed, if_neg (by simp [hne]), List.reverse_append, List.reverse_reverse,
    List.reverse_reverse, ← hsegments, segments, pathOf_segmentsOf]

end Path

/-- Segments at the end that lead nowhere can be left out. -/
theorem Entry.follow_of_append_idle {top e : Entry} {place xs idle spot : List String}
    (hidle : ∀ s ∈ idle, s = "" ∨ s = ".")
    (h : top.follow place (xs ++ idle) = .ok (.taken spot e)) :
    top.follow place xs = .ok (.taken spot e) := by
  obtain ⟨mid, x, hmid, hrest⟩ := follow_append_eq_taken_iff.mp h
  have hplace : spot = (goAlong mid.reverse idle).reverse := place_of_follow hrest
  rw [goAlong_of_idle hidle, List.reverse_reverse] at hplace
  subst hplace
  cases (at?_of_follow hmid).symm.trans (at?_of_follow hrest)
  exact hmid

/-- Names lead from the first place to the second. -/
def IsBelow (base place : List String) : Prop := ∃ names, names ≠ [] ∧ place = base ++ names

theorem IsBelow.append {base place : List String} (h : IsBelow base place) (rest : List String) :
    IsBelow base (place ++ rest) := by
  obtain ⟨names, hne, rfl⟩ := h
  exact ⟨names ++ rest, by simp [hne], List.append_assoc _ _ _⟩

namespace Disk

/-! ## The folder that paths go down from -/

/-- A path that another one starts with is followed from the same place. -/
theorem followFrom_of_append {d : Disk} {p : Path} {segments : List String} {spot : Spot}
    (h : d.followFrom p segments = .ok spot) {q : Path} {tail : String}
    (hp : p.text = q.text ++ tail) (hq : ¬ q.text.isEmpty = true) (others : List String) :
    d.followFrom q others = d.top.follow (d.start p) others := by
  have hstart : d.start q = d.start p := by
    rw [start, start, Path.isAbsolute, Path.isAbsolute, Path.startsAtRoot, Path.startsAtRoot, hp,
      String.toList_append]
    cases htext : q.text.toList with
    | nil => exact absurd (String.isEmpty_iff.mpr (String.toList_eq_nil_iff.mp htext)) hq
    | cons c cs => rfl
  rw [followFrom] at h
  split at h
  next => cases h
  split at h
  next => cases h
  next hnull =>
    rw [hp, String.toList_append, List.contains_iff_mem, List.mem_append, not_or,
      ← List.contains_iff_mem] at hnull
    rw [followFrom, if_neg hq, if_neg hnull.1, ← start, hstart]

/-- What is directly in a folder is in a folder that is made already. -/
theorem exists_folders_join {d : Disk} {p : Path} (h : d.hasFolder p = true) {name : String}
    (hname : IsEntryName name ∧ name ≠ "." ∧ name ≠ "..") :
    ∃ q rest, (p.joinAll [name]).folders = q :: rest ∧ d.IsMade q := by
  have hnames : ∀ n ∈ [name], IsEntryName n := fun n hn => List.mem_singleton.mp hn ▸ hname.1
  obtain ⟨front, idle, hp, hidle, hfront⟩ := p.exists_segments_joinAll
  obtain ⟨more, hmore, hmidle⟩ := Path.exists_dropIdle_eq front.reverse
  refine ⟨Path.ofReversed p.isAbsolute (Path.dropIdle front.reverse),
    Path.foldersFrom p.isAbsolute front.reverse, ?_, ?_⟩
  · have hplain : ¬ (name = "" ∨ (name = "." ∧ front.reverse ≠ [])) := by
      rintro (hempty | ⟨hs, -⟩)
      · exact hname.1.1 hempty
      · exact hname.2.1 hs
    rw [Path.folders, p.isAbsolute_joinAll (by simp) hnames, hfront _ (by simp) hnames,
      List.reverse_append, List.reverse_singleton, List.singleton_append, Path.foldersFrom,
      if_neg hplain]
  -- The folder has the segments of `p`, without those at the end that lead nowhere.
  generalize hsegments : (Path.dropIdle front.reverse).reverse = segments
  have hleft : Path.dropIdle front.reverse = segments.reverse := by
    rw [← hsegments, List.reverse_reverse]
  have hall : p.segments = segments ++ (more.reverse ++ idle) := by
    have hreverse := congrArg List.reverse hmore
    rw [List.reverse_reverse, List.reverse_append, hsegments] at hreverse
    rw [hp, hreverse, List.append_assoc]
  have hallidle : ∀ s ∈ more.reverse ++ idle, s = "" ∨ s = "." := fun s hs =>
    (List.mem_append.mp hs).elim (fun hs => hmidle s (List.mem_reverse.mp hs))
      fun hs => .inl (hidle s hs)
  obtain ⟨place, es, hlocate⟩ := hasFolder_iff.mp h
  obtain ⟨hfollow, hfrom⟩ := followFrom_eq_ok (locate_eq_ok_iff.mp hlocate)
  rw [hall] at hfollow
  have htaken := Entry.follow_of_append_idle hallidle hfollow
  rw [hleft, Path.ofReversed]
  by_cases hnil : segments = []
  · subst hnil
    rw [List.reverse_nil, List.isEmpty_nil, if_pos rfl]
    by_cases habs : p.isAbsolute = true
    · rw [if_pos habs]
      rw [start, if_pos habs] at htaken
      have htop := Entry.at?_of_follow htaken
      cases Entry.place_of_follow htaken
      refine .inr (hasFolder_iff.mpr ⟨[], es, locate_eq_ok_iff.mpr ?_⟩)
      exact @Entry.follow_empty _ [] _ _ (by decide) htop
    · rw [if_neg habs]
      exact .inl rfl
  · rw [if_neg (by simpa using hnil), List.reverse_reverse]
    obtain ⟨tail, htail⟩ := exists_pathOf_append hnil (more.reverse ++ idle)
    have htext : p.text = pathOf segments ++ tail := by
      rw [← htail, ← hall, Path.segments, pathOf_segmentsOf]
    have hslash : ∀ s ∈ segments, '/' ∉ s.toList := fun s hs => by
      have hin : s ∈ p.segments := hall ▸ List.mem_append_left _ hs
      obtain ⟨chars, hchars, rfl⟩ := List.mem_map.mp hin
      rw [String.toList_ofList]
      exact not_mem_of_mem_splitSlashes hchars
    by_cases hempty : (pathOf segments).isEmpty = true
    · exact .inl hempty
    · refine .inr (hasFolder_iff.mpr ⟨place, es, locate_eq_ok_iff.mpr ?_⟩)
      rw [follow, Path.segments, segmentsOf_pathOf hnil hslash]
      exact (followFrom_of_append (q := ⟨pathOf segments⟩) (locate_eq_ok_iff.mp hlocate) htext
        hempty segments).trans htaken

/-- The folders of a path that goes down from a folder are below it, up to one that is made
already. -/
theorem exists_folders_joinAll {d : Disk} {base : Path} (h : d.hasFolder base = true)
    {names : List String} (hne : names ≠ [])
    (hnames : ∀ name ∈ names, IsEntryName name ∧ name ≠ "." ∧ name ≠ "..") :
    ∃ below q rest, base.joinAll names :: (base.joinAll names).folders = below ++ q :: rest ∧
      (∀ p ∈ below, IsBelow (d.placeOf base) (d.placeOf p)) ∧ d.IsMade q := by
  induction names using List.reverseRecOn with
  | nil => exact absurd rfl hne
  | append_singleton front name ih =>
      have hbelow : IsBelow (d.placeOf base) (d.placeOf (base.joinAll (front ++ [name]))) :=
        ⟨_, hne, d.placeOf_joinAll base hne hnames⟩
      by_cases hfront : front = []
      · subst hfront
        obtain ⟨q, rest, hfolders, hq⟩ := exists_folders_join h (hnames name (by simp))
        refine ⟨[base.joinAll [name]], q, rest, ?_, List.forall_mem_singleton.mpr hbelow, hq⟩
        rw [List.nil_append, hfolders]
        rfl
      · obtain ⟨below, q, rest, hfolders, hall, hq⟩ :=
          ih hfront fun n hn => hnames n (List.mem_append_left _ hn)
        refine ⟨base.joinAll (front ++ [name]) :: below, q, rest, ?_,
          List.forall_mem_cons.mpr ⟨hbelow, hall⟩, hq⟩
        rw [Path.folders_joinAll_append base hfront hnames, hfolders]
        rfl

/-! ## What stays outside -/

/-- All that is not below a place stays as it was. -/
def SameOutside (d : Disk) (base : List String) (d' : Disk) : Prop :=
  d'.here = d.here ∧ ∀ place, ¬ IsBelow base place → d'.top.standing place = d.top.standing place

theorem SameOutside.refl (d : Disk) (base : List String) : d.SameOutside base d :=
  ⟨rfl, fun _ _ => rfl⟩

theorem SameOutside.trans {a b c : Disk} {base : List String} (hab : a.SameOutside base b)
    (hbc : b.SameOutside base c) : a.SameOutside base c :=
  ⟨hbc.1.trans hab.1, fun place hplace => (hbc.2 place hplace).trans (hab.2 place hplace)⟩

/-- Files outside stay as they were. -/
theorem SameOutside.fileAt {d d' : Disk} {base : List String} (h : d.SameOutside base d')
    {place : List String} (hplace : ¬ IsBelow base place) : d'.fileAt place = d.fileAt place := by
  rw [Disk.fileAt, Disk.fileAt, Entry.file?_eq_join_standing, Entry.file?_eq_join_standing,
    h.2 place hplace]

theorem sameOutside_put {d : Disk} {base folder : List String} {name : String} {new : Entry}
    {es : List (String × Entry)} (hes : d.top.at? folder = some (.folder es))
    (hbelow : IsBelow base (folder ++ [name])) :
    d.SameOutside base { d with top := d.top.put (folder ++ [name]) new } := by
  refine ⟨rfl, fun place hplace => ?_⟩
  rw [Entry.standing_put hes, if_neg]
  rintro ⟨rest, rfl⟩
  exact hplace (hbelow.append rest)

theorem sameOutside_makeFolder {d d' : Disk} {base : List String} {p : Path}
    (hp : IsBelow base (d.placeOf p)) (h : d.makeFolder p = .ok d') : d.SameOutside base d' := by
  rw [makeFolder] at h
  split at h
  next place hfree =>
    cases h
    obtain ⟨hplace, -⟩ := followFrom_eq_ok hfree
    obtain ⟨folder, name, es, rfl, hes, -⟩ := Entry.of_follow_eq_free hplace
    rw [← eq_placeOf_of_followToMake hfree] at hp
    exact sameOutside_put hes hp
  next => cases h
  next => cases h

theorem sameOutside_write {d d' : Disk} {base : List String} {p : Path} {bytes : ByteArray}
    (hp : IsBelow base (d.placeOf p)) (h : d.write p bytes = .ok d') : d.SameOutside base d' := by
  obtain ⟨place, hspot, hput, hlocate⟩ := exists_spot_of_write h
  have hhere : d'.here = d.here := by rw [hput]
  have hplace := (eq_placeOf_of_locate hlocate).trans (placeOf_of_here hhere p)
  rw [← hplace] at hp
  subst hput
  rcases List.eq_nil_or_concat place with rfl | ⟨folder, name, rfl⟩
  · obtain ⟨names, hne, hnil⟩ := hp
    exact absurd (List.append_eq_nil_iff.mp hnil.symm).2 hne
  · rw [List.concat_eq_append] at hspot hp ⊢
    obtain ⟨es, hes, -⟩ := hspot.exists_folder
    exact sameOutside_put hes hp

/-- Making folders changes nothing outside, if all of them are below a place up to one that is
made already.  It does not matter whether it succeeds. -/
theorem sameOutside_makeFoldersFrom {d : Disk} {base : List String} {below : List Path} {q : Path}
    (hbelow : ∀ p ∈ below, IsBelow base (d.placeOf p)) (hq : d.IsMade q) (rest : List Path) :
    d.SameOutside base (d.makeFoldersFrom (below ++ q :: rest)).2 := by
  induction below with
  | nil =>
      rw [List.nil_append, makeFoldersFrom_of_isMade hq]
      exact .refl d base
  | cons p below ih =>
      rw [List.forall_mem_cons] at hbelow
      have hrest := ih hbelow.2
      rw [List.cons_append, makeFoldersFrom]
      split
      next => exact .refl d base
      split
      next hmade => exact sameOutside_makeFolder hbelow.1 hmade
      next =>
        split
        next d₁ h₁ =>
          rw [h₁] at hrest
          exact hrest
        next d₁ h₁ =>
          rw [h₁] at hrest
          split
          next hmade =>
            refine hrest.trans (sameOutside_makeFolder ?_ hmade)
            rw [placeOf_of_here hrest.1]
            exact hbelow.1
          next => exact hrest
      next => exact .refl d base

variable {d : Disk} {base : Path} {names : List String}

/-- Making a path that goes down from a folder a folder changes nothing outside. -/
theorem sameOutside_makeFolders (h : d.hasFolder base = true) (hne : names ≠ [])
    (hnames : ∀ name ∈ names, IsEntryName name ∧ name ≠ "." ∧ name ≠ "..") :
    d.SameOutside (d.placeOf base) (d.makeFolders (base.joinAll names)).2 := by
  obtain ⟨below, q, rest, hfolders, hbelow, hq⟩ := exists_folders_joinAll h hne hnames
  rw [makeFolders, hfolders]
  exact sameOutside_makeFoldersFrom hbelow hq rest

theorem sameOutside_makeFolderOf (h : d.hasFolder base = true) (hne : names ≠ [])
    (hnames : ∀ name ∈ names, IsEntryName name ∧ name ≠ "." ∧ name ≠ "..") :
    d.SameOutside (d.placeOf base) (d.makeFolderOf (base.joinAll names)).2 := by
  obtain ⟨front, name, rfl⟩ := (List.eq_nil_or_concat names).resolve_left hne
  rw [List.concat_eq_append] at hne hnames ⊢
  by_cases hfront : front = []
  · subst hfront
    obtain ⟨q, rest, hfolders, hq⟩ := exists_folders_join h (hnames name (by simp))
    rw [makeFolderOf, Path.folder?, List.nil_append, hfolders, List.head?_cons]
    dsimp only
    rw [makeFolders_of_isMade hq]
    exact .refl d _
  · rw [makeFolderOf, Path.folder?, Path.folders_joinAll_append base hfront hnames,
      List.head?_cons]
    exact sameOutside_makeFolders h hfront fun n hn => hnames n (List.mem_append_left _ hn)

end Disk

end PageLoom
