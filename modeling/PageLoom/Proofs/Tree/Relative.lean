import PageLoom.Proofs.Disk.Descent
import PageLoom.Tree.Path
import Mathlib.Data.List.Induction
import Mathlib.Data.List.TakeDrop

/-!
# The relative path between two files

A reference is followed from the folder of the page that it is on: `..` leaves a
folder, `.` stays, and everything else is entered.  `followed_relativeSegments` says
that the way that `relativeSegments` finds leads to its target, and that it never
leaves the folders that both paths share.

A way that goes up first and then down only leads to a target if the folder in which
it turns is shared (`exists_of_followed`).  So it goes up at least to the last folder
that both paths share, where the relative path turns, and between files that share a
folder no relative path is shorter (`relativePath_shortest`).  The folders above the
shared one do not matter: the same way leads between the same files in another place.
-/

namespace PageLoom

/-! ## Following references -/

/-- Follow segments from a folder, but not above the topmost one. -/
def followSegments? (dir : List String) : List String → Option (List String)
  | [] => some dir
  | s :: rest =>
      if s = ".." then if dir = [] then none else followSegments? dir.dropLast rest
      else if s = "." then followSegments? dir rest
      else followSegments? (dir ++ [s]) rest

/-- Follow a reference from a page.  An empty one leads to the page itself. -/
def followHref? (page : List String) (href : String) : Option (List String) :=
  if href = "" then some page else followSegments? page.dropLast (segmentsOf href)

theorem followSegments?_up (front back rest : List String) :
    followSegments? (front ++ back) (List.replicate back.length ".." ++ rest) =
      followSegments? front rest := by
  induction back using List.reverseRecOn with
  | nil => simp
  | append_singleton back last ih =>
      rw [List.length_append, List.length_singleton, List.replicate_succ, List.cons_append,
        followSegments?, if_pos rfl, if_neg (by simp), ← List.append_assoc, List.dropLast_concat]
      exact ih

theorem followSegments?_down {rest : List String} (h : ∀ s ∈ rest, s ≠ "." ∧ s ≠ "..")
    (dir : List String) : followSegments? dir rest = some (dir ++ rest) := by
  induction rest generalizing dir with
  | nil => rw [followSegments?, List.append_nil]
  | cons s rest ih =>
      obtain ⟨hdot, hup⟩ := h s (.head _)
      rw [followSegments?, if_neg hup, if_neg hdot, ih fun r hr => h r (.tail _ hr),
        List.append_assoc]
      rfl

/-! ## Relative paths -/

theorem sharedCount_le (as bs : List String) : sharedCount as bs ≤ as.length := by
  fun_induction sharedCount as bs with
  | case1 a as bs ih => exact Nat.succ_le_succ ih
  | case2 => exact Nat.zero_le _
  | case3 => exact Nat.zero_le _

theorem take_sharedCount (as bs : List String) :
    as.take (sharedCount as bs) = bs.take (sharedCount as bs) := by
  fun_induction sharedCount as bs with
  | case1 a as bs ih => rw [List.take_succ_cons, List.take_succ_cons, ih]
  | case2 => rfl
  | case3 => rfl

/-- A path that is shared to its end is a folder of the other one. -/
theorem prefix_of_drop_sharedCount {as bs : List String}
    (h : bs.drop (sharedCount as bs) = []) : bs <+: as := by
  have hbs : bs.take (sharedCount as bs) = bs :=
    List.take_of_length_le (List.drop_eq_nil_iff.mp h)
  rw [← hbs, ← take_sharedCount]
  exact List.take_prefix _ _

/-- The way to a target leads there, also when folders that both share are left out. -/
theorem followed_relativeSegments {dir target : List String} {k : Nat}
    (hshared : sharedCount dir target ≠ 0) (hk : k ≤ sharedCount dir target)
    (h : ∀ s ∈ target, s ≠ "." ∧ s ≠ "..") :
    followSegments? (dir.drop k) (relativeSegments dir target) = some (target.drop k) := by
  have hle := sharedCount_le dir target
  have htake := take_sharedCount dir target
  rw [relativeSegments, if_neg hshared]
  generalize sharedCount dir target = n at *
  have hdir : dir.drop k = (dir.take n).drop k ++ dir.drop n := by
    rw [← List.drop_append_of_le_length (by rw [List.length_take]; omega), List.take_append_drop]
  calc followSegments? (dir.drop k) (List.replicate (dir.length - n) ".." ++ target.drop n)
      = followSegments? ((dir.take n).drop k) (target.drop n) := by
        rw [hdir, ← List.length_drop, followSegments?_up]
    _ = some ((target.take n).drop k ++ target.drop n) := by
        rw [followSegments?_down (fun s hs => h s (List.mem_of_mem_drop hs)), htake]
    _ = some (target.drop k) := by
        by_cases hn : n ≤ target.length
        · rw [← List.drop_append_of_le_length (by rw [List.length_take]; omega),
            List.take_append_drop]
        · rw [List.take_of_length_le (by omega), List.drop_of_length_le (by omega : _ ≤ n),
            List.append_nil]

theorem relativeSegments_ne_nil {dir target : List String} (h : ¬ target <+: dir) :
    relativeSegments dir target ≠ [] := by
  rw [relativeSegments]
  split
  next =>
    rintro rfl
    exact h (List.nil_prefix)
  next =>
    intro he
    exact h (prefix_of_drop_sharedCount (List.append_eq_nil_iff.mp he).2)

theorem isEntryName_relativeSegments {dir target : List String}
    (h : ∀ s ∈ target, IsEntryName s) : ∀ s ∈ relativeSegments dir target, IsEntryName s := by
  intro s hs
  rw [relativeSegments] at hs
  split at hs
  next => exact h s hs
  next =>
    rcases List.mem_append.mp hs with hs | hs
    · rw [List.eq_of_mem_replicate hs]
      exact ⟨by decide, by decide⟩
    · exact h s (List.mem_of_mem_drop hs)

/-- The path of names is not empty. -/
theorem pathOf_ne_empty {names : List String} (hne : names ≠ [])
    (h : ∀ name ∈ names, IsEntryName name) : pathOf names ≠ "" := by
  intro he
  have hs := segmentsOf_pathOf hne fun name hn => (h name hn).2
  rw [he] at hs
  exact (h "" (hs ▸ .head _)).1 rfl

/-- The folder that a file is in. -/
def folderOf (path : String) : List String := (segmentsOf path).dropLast

/-- The path to another file has the segments of the way there. -/
theorem relativePath_of_ne {source target : String} (hne : source ≠ target)
    (hnames : ∀ s ∈ segmentsOf target, IsEntryName s)
    (hfolder : ¬ segmentsOf target <+: folderOf source) :
    relativePath source target ≠ "" ∧
      segmentsOf (relativePath source target) =
        relativeSegments (folderOf source) (segmentsOf target) := by
  have hnil := relativeSegments_ne_nil hfolder
  have hentries := @isEntryName_relativeSegments (folderOf source) _ hnames
  rw [relativePath, if_neg hne, ← folderOf]
  exact ⟨pathOf_ne_empty hnil hentries, segmentsOf_pathOf hnil fun s hs => (hentries s hs).2⟩

/-! ## The shortest way -/

theorem sharedCount_append (front as bs : List String) :
    sharedCount (front ++ as) (front ++ bs) = front.length + sharedCount as bs := by
  induction front with
  | nil => simp
  | cons s front ih =>
      rw [List.cons_append, List.cons_append, sharedCount, if_pos rfl, ih, List.length_cons]
      omega

/-- What both paths start with is shared. -/
theorem length_le_sharedCount {front as bs : List String} (has : front <+: as)
    (hbs : front <+: bs) : front.length ≤ sharedCount as bs := by
  obtain ⟨restA, rfl⟩ := has
  obtain ⟨restB, rfl⟩ := hbs
  rw [sharedCount_append]
  exact Nat.le_add_right _ _

/-- A way up and then down leads to a target in the folder in which it turns. -/
theorem exists_of_followed {dir names target : List String} {ups : Nat}
    (hnames : ∀ s ∈ names, s ≠ "." ∧ s ≠ "..")
    (h : followSegments? dir (List.replicate ups ".." ++ names) = some target) :
    ∃ front back, dir = front ++ back ∧ back.length = ups ∧ target = front ++ names := by
  induction ups generalizing dir with
  | zero =>
      rw [List.replicate_zero, List.nil_append, followSegments?_down hnames] at h
      exact ⟨dir, [], by simp, rfl, (Option.some.inj h).symm⟩
  | succ ups ih =>
      rw [List.replicate_succ, List.cons_append, followSegments?, if_pos rfl] at h
      split at h
      next => cases h
      next hne =>
        obtain ⟨front, back, hdir, hlength, htarget⟩ := ih h
        refine ⟨front, back ++ [dir.getLast hne], ?_, by simp [hlength], htarget⟩
        rw [← List.append_assoc, ← hdir, List.dropLast_concat_getLast]

/-- The way from a folder to a file leaves `ups` folders and then enters `names`, the last
segments of the file's path.  No way up and then down leaves fewer folders. -/
structure ShortestWay (dir target : List String) (ups : Nat) (names : List String) : Prop where
  descends : names <:+ target
  leads : followSegments? dir (List.replicate ups ".." ++ names) = some target
  fewest : ∀ ups' names', (∀ s ∈ names', s ≠ "." ∧ s ≠ "..") →
    followSegments? dir (List.replicate ups' ".." ++ names') = some target → ups ≤ ups'

/-- The way between files that share a folder, or from a file in no folder. -/
theorem exists_shortestWay {dir target : List String}
    (hshared : dir = [] ∨ dir.head? = target.head?) (h : ∀ s ∈ target, s ≠ "." ∧ s ≠ "..") :
    ∃ ups names, relativeSegments dir target = List.replicate ups ".." ++ names ∧
      ShortestWay dir target ups names := by
  by_cases hzero : sharedCount dir target = 0
  · -- Nothing is shared, so the first file is in no folder.
    have hdir : dir = [] := by
      cases dir with
      | nil => rfl
      | cons s dir =>
          have hhead : some s = target.head? := hshared.resolve_left (List.cons_ne_nil s dir)
          cases target with
          | nil => cases hhead
          | cons b target =>
              cases hhead
              rw [sharedCount, if_pos rfl] at hzero
              cases hzero
    subst hdir
    refine ⟨0, target, by simp [relativeSegments, hzero], List.suffix_rfl, ?_, ?_⟩
    · exact followSegments?_down h []
    · intro ups' names' _ _
      exact Nat.zero_le _
  · refine ⟨dir.length - sharedCount dir target, target.drop (sharedCount dir target), ?_,
      List.drop_suffix _ _, ?_, ?_⟩
    · rw [relativeSegments, if_neg hzero]
    · have hfollowed := followed_relativeSegments hzero (Nat.zero_le _) h
      rwa [relativeSegments, if_neg hzero] at hfollowed
    · intro ups' names' hnames hleads
      obtain ⟨front, back, rfl, rfl, rfl⟩ := exists_of_followed hnames hleads
      have := length_le_sharedCount (List.prefix_append front back)
        (List.prefix_append front names')
      rw [List.length_append]
      omega

/-- Below a folder that both files are in, the folders above it do not matter. -/
theorem relativeSegments_append {front : List String} (hfront : front ≠ [])
    (dir target : List String) : relativeSegments (front ++ dir) (front ++ target) =
      List.replicate (dir.length - sharedCount dir target) ".." ++
        target.drop (sharedCount dir target) := by
  have hlength := List.length_pos_iff.mpr hfront
  rw [relativeSegments, sharedCount_append, if_neg (by omega), List.length_append,
    Nat.add_sub_add_left, ← List.drop_drop, List.drop_left]

theorem relativePath_append_slash (front a b : String) :
    relativePath (front ++ "/" ++ a) (front ++ "/" ++ b) =
      if a = b then ""
      else pathOf (relativeSegments (segmentsOf front ++ folderOf a)
        (segmentsOf front ++ segmentsOf b)) := by
  have heq : front ++ "/" ++ a = front ++ "/" ++ b ↔ a = b := by simp
  simp only [relativePath, heq]
  rw [segmentsOf_append_slash, segmentsOf_append_slash,
    List.dropLast_append_of_ne_nil (segmentsOf_ne_nil a), folderOf]

/-- Between paths that go on from a common front, the relative path does not depend on the front. -/
theorem relativePath_pathOf_append {front a b : List String} (hfront : front ≠ []) (ha : a ≠ [])
    (hb : b ≠ []) : relativePath (pathOf (front ++ a)) (pathOf (front ++ b)) =
      if pathOf a = pathOf b then ""
      else
        let dir := folderOf (pathOf a)
        let target := segmentsOf (pathOf b)
        pathOf (List.replicate (dir.length - sharedCount dir target) ".." ++
          target.drop (sharedCount dir target)) := by
  rw [pathOf_append hfront ha, pathOf_append hfront hb, relativePath_append_slash,
    relativeSegments_append (segmentsOf_ne_nil (pathOf front))]

/-- The relative path between two files: empty on the file itself, else the way that goes up least,
and the same below every folder. -/
theorem relativePath_shortest :
    (∀ source target, (∀ s ∈ segmentsOf target, IsNodeName s) →
      (folderOf source = [] ∨ (folderOf source).head? = (segmentsOf target).head?) →
      ¬ segmentsOf target <+: folderOf source →
      (relativePath source target = "" ↔ source = target) ∧
      (source ≠ target → ∃ ups names,
        segmentsOf (relativePath source target) = List.replicate ups ".." ++ names ∧
        ShortestWay (folderOf source) (segmentsOf target) ups names)) ∧
    ∀ front front' a b, relativePath (front ++ "/" ++ a) (front ++ "/" ++ b) =
      relativePath (front' ++ "/" ++ a) (front' ++ "/" ++ b) := by
  refine ⟨?_, ?_⟩
  · intro source target hnames hshared hfolder
    have hentries : ∀ s ∈ segmentsOf target, IsEntryName s :=
      fun s hs => ⟨(hnames s hs).1, (hnames s hs).2.1⟩
    refine ⟨⟨?_, fun he => if_pos he⟩, fun hne => ?_⟩
    · intro hempty
      by_contra hne
      exact (relativePath_of_ne hne hentries hfolder).1 hempty
    · obtain ⟨ups, names, hway, hshortest⟩ :=
        exists_shortestWay hshared fun s hs => (hnames s hs).2.2
      exact ⟨ups, names, (relativePath_of_ne hne hentries hfolder).2.trans hway, hshortest⟩
  · intro front front' a b
    rw [relativePath_append_slash, relativePath_append_slash,
      relativeSegments_append (segmentsOf_ne_nil front),
      relativeSegments_append (segmentsOf_ne_nil front')]

/-- Two folders up, and down to a page that is called like one of them. -/
theorem relativePath_shortest_up : relativePath "main/a/b/c" "main/x/b" = "../../x/b" ∧
    ∃ ups names, segmentsOf (relativePath "main/a/b/c" "main/x/b") =
        List.replicate ups ".." ++ names ∧
      ShortestWay (folderOf "main/a/b/c") (segmentsOf "main/x/b") ups names :=
  ⟨by decide, (relativePath_shortest.1 "main/a/b/c" "main/x/b" (by decide) (.inr rfl)
    (by decide)).2 (by decide)⟩

end PageLoom
