import PageLoom.Proofs.Disk.Files
import PageLoom.Tree.Name
import Mathlib.Data.List.Basic

/-!
# Paths that go down

A path goes down through names: `Path.joinAll` joins them one after the other, which is
joining their path (`Path.joinAll_eq`).  The segments of the path are then those of the
folder it starts in, followed by the names (`Path.exists_segments_joinAll`).  So its place is
that of the folder, followed by the names (`Disk.placeOf_joinAll`).
-/

namespace PageLoom

/-! ## Joined paths -/

theorem splitSlashes_append_slash (front rest : List Char) :
    splitSlashes (front ++ '/' :: rest) = splitSlashes front ++ splitSlashes rest := by
  induction front with
  | nil => exact if_pos rfl
  | cons c front ih =>
      rw [List.cons_append, splitSlashes, splitSlashes, ih]
      by_cases hc : c = '/'
      · rw [if_pos hc, if_pos hc]
        rfl
      · rw [if_neg hc, if_neg hc]
        cases hs : splitSlashes front with
        | nil => exact absurd hs (splitSlashes_ne_nil front)
        | cons s ss => rfl

/-- A `/` between two texts separates their segments. -/
theorem segmentsOf_append_slash (front rest : String) :
    segmentsOf (front ++ "/" ++ rest) = segmentsOf front ++ segmentsOf rest := by
  have htext : (front ++ "/" ++ rest).toList = front.toList ++ '/' :: rest.toList := by
    rw [String.toList_append, String.toList_append, List.append_assoc]
    rfl
  rw [segmentsOf, htext, splitSlashes_append_slash, List.map_append]
  rfl

theorem pathOf_singleton (name : String) : pathOf [name] = name := by
  rw [pathOf, List.map_singleton, joinSlashes, String.ofList_toList]

theorem pathOf_cons_cons (name next : String) (rest : List String) :
    pathOf (name :: next :: rest) = name ++ "/" ++ pathOf (next :: rest) := by
  refine String.toList_injective ?_
  rw [String.toList_append, String.toList_append, pathOf, pathOf, String.toList_ofList,
    String.toList_ofList, List.map_cons, List.map_cons, joinSlashes, List.append_assoc,
    String.toList_ofList]
  rfl

/-- Going on through more names is going on through their path. -/
theorem pathOf_append {front rest : List String} (hfront : front ≠ []) (hrest : rest ≠ []) :
    pathOf (front ++ rest) = pathOf front ++ "/" ++ pathOf rest := by
  induction front with
  | nil => exact absurd rfl hfront
  | cons name front ih =>
      cases front with
      | nil =>
          obtain ⟨next, more, rfl⟩ := List.exists_cons_of_ne_nil hrest
          rw [List.singleton_append, pathOf_cons_cons, pathOf_singleton]
      | cons next front =>
          rw [List.cons_append, List.cons_append, pathOf_cons_cons, pathOf_cons_cons,
            ← List.cons_append, ih (List.cons_ne_nil next front)]
          simp only [String.append_assoc]

/-- A path starts with the path of the segments that it starts with. -/
theorem exists_pathOf_append {front : List String} (hne : front ≠ []) (rest : List String) :
    ∃ tail, pathOf (front ++ rest) = pathOf front ++ tail := by
  by_cases hrest : rest = []
  · exact ⟨"", by rw [hrest, List.append_nil, String.append_empty]⟩
  · exact ⟨_, by rw [pathOf_append hne hrest, String.append_assoc]⟩

theorem exists_pathOf_eq (name : String) (rest : List String) :
    ∃ tail, pathOf (name :: rest) = name ++ tail := by
  obtain ⟨tail, htail⟩ := exists_pathOf_append (List.cons_ne_nil name []) rest
  exact ⟨tail, by rwa [pathOf_singleton] at htail⟩

namespace Path

/-- The path that continues another one through names. -/
def joinAll (p : Path) (names : List String) : Path := names.foldl join p

theorem startsAtRoot_append {name : String} (h : IsEntryName name) (rest : String) :
    startsAtRoot (name ++ rest) = false := by
  obtain ⟨hne, hs⟩ := h
  rw [startsAtRoot, String.toList_append]
  cases hn : name.toList with
  | nil => exact absurd (String.toList_eq_nil_iff.mp hn) hne
  | cons c cs =>
      rw [hn, List.mem_cons, not_or] at hs
      simpa using Ne.symm hs.1

/-- A path that ends with a name goes on after a `/`. -/
theorem join_of_append {p : Path} {front name rest : String} (h : IsEntryName name)
    (hp : p.text = front ++ name) (hrest : startsAtRoot rest = false) :
    p.join rest = ⟨p.text ++ "/" ++ rest⟩ := by
  obtain ⟨hne, hs⟩ := h
  have hname : name.toList ≠ [] := fun hn => hne (String.toList_eq_nil_iff.mp hn)
  have hlast : p.text.toList.getLast? ≠ some '/' := fun hl => by
    rw [hp, String.toList_append, List.getLast?_append_of_ne_nil _ hname] at hl
    exact hs (List.mem_of_getLast? hl)
  have hempty : p.text.isEmpty = false := by
    rw [Bool.eq_false_iff, ne_eq, String.isEmpty_iff, hp]
    intro he
    have := congrArg String.toList he
    rw [String.toList_append, String.toList_empty, List.append_eq_nil_iff] at this
    exact hname this.2
  rw [join, hrest, hempty]
  simp [hlast]

theorem exists_join_eq (p : Path) :
    ∃ front, ∀ rest, startsAtRoot rest = false → p.join rest = ⟨front ++ rest⟩ := by
  by_cases hp : (p.text.isEmpty || p.text.toList.getLast? == some '/') = true
  · refine ⟨p.text, fun rest hrest => ?_⟩
    rw [join, hrest, if_neg Bool.false_ne_true, if_pos hp]
  · refine ⟨p.text ++ "/", fun rest hrest => ?_⟩
    rw [join, hrest, if_neg Bool.false_ne_true, if_neg hp]

/-- Two steps down are one. -/
theorem join_join {p : Path} {name rest : String} (h : IsEntryName name)
    (hrest : startsAtRoot rest = false) :
    (p.join name).join rest = p.join (name ++ "/" ++ rest) := by
  obtain ⟨front, hfront⟩ := exists_join_eq p
  have hname := startsAtRoot_append h ""
  rw [String.append_empty] at hname
  rw [hfront name hname, join_of_append h rfl hrest, hfront]
  · simp only [String.append_assoc]
  · rw [String.append_assoc]
    exact startsAtRoot_append h _

/-- Going down through names is going down their path. -/
theorem joinAll_eq {p : Path} {names : List String} (hne : names ≠ [])
    (h : ∀ name ∈ names, IsEntryName name) : p.joinAll names = p.join (pathOf names) := by
  induction names generalizing p with
  | nil => exact absurd rfl hne
  | cons name names ih =>
      cases names with
      | nil => rw [pathOf_singleton]; rfl
      | cons next rest =>
          have hnames : ∀ n ∈ next :: rest, IsEntryName n := fun n hn => h n (.tail _ hn)
          have hrest : startsAtRoot (pathOf (next :: rest)) = false := by
            obtain ⟨tail, htail⟩ := exists_pathOf_eq next rest
            rw [htail]
            exact startsAtRoot_append (hnames next (.head _)) tail
          calc p.joinAll (name :: next :: rest)
              = (p.join name).joinAll (next :: rest) := rfl
            _ = (p.join name).join (pathOf (next :: rest)) := ih (by simp) hnames
            _ = p.join (name ++ "/" ++ pathOf (next :: rest)) := join_join (h name (.head _)) hrest
            _ = p.join (pathOf (name :: next :: rest)) := by rw [pathOf_cons_cons]

theorem startsAtRoot_pathOf {names : List String} (hne : names ≠ [])
    (h : ∀ name ∈ names, IsEntryName name) : startsAtRoot (pathOf names) = false := by
  cases names with
  | nil => exact absurd rfl hne
  | cons name rest =>
      obtain ⟨tail, htail⟩ := exists_pathOf_eq name rest
      rw [htail]
      exact startsAtRoot_append (h name (.head _)) tail

/-! ## Segments of joined paths -/

/-- Joining keeps the start of a path. -/
theorem isAbsolute_join (p : Path) {rest : String} (h : startsAtRoot rest = false) :
    (p.join rest).isAbsolute = p.isAbsolute := by
  rw [join, h, if_neg Bool.false_ne_true]
  cases htext : p.text.toList with
  | nil =>
      have hempty := String.toList_eq_nil_iff.mp htext
      rw [String.isEmpty_iff.mpr hempty, Bool.true_or, if_pos rfl, isAbsolute, isAbsolute, hempty,
        String.empty_append, h]
      rfl
  | cons c cs =>
      have hhead : ∀ tail, startsAtRoot (p.text ++ tail) = p.isAbsolute := fun tail => by
        rw [startsAtRoot, isAbsolute, startsAtRoot, String.toList_append, htext]
        rfl
      split
      · exact hhead rest
      · rw [isAbsolute, String.append_assoc]
        exact hhead _

/-- The segments of a folder come before those of what is joined to it. -/
theorem exists_segments_join (p : Path) : ∃ front idle, p.segments = front ++ idle ∧
    (∀ s ∈ idle, s = "") ∧ ∀ rest, startsAtRoot rest = false →
      (p.join rest).segments = front ++ segmentsOf rest := by
  by_cases hempty : p.text.isEmpty = true
  · refine ⟨[], [""], ?_, by simp, fun rest h => ?_⟩
    · rw [segments, String.isEmpty_iff.mp hempty]
      rfl
    · rw [join, h, if_neg Bool.false_ne_true, hempty, Bool.true_or, if_pos rfl, segments,
        String.isEmpty_iff.mp hempty, String.empty_append, List.nil_append]
  by_cases hlast : p.text.toList.getLast? = some '/'
  · obtain ⟨front, hfront⟩ := List.getLast?_eq_some_iff.mp hlast
    have htext : p.text = String.ofList front ++ "/" ++ "" := by
      refine String.toList_injective ?_
      rw [hfront, String.append_empty, String.toList_append, String.toList_ofList]
      rfl
    refine ⟨segmentsOf (String.ofList front), [""], ?_, by simp, fun rest h => ?_⟩
    · rw [segments, htext, segmentsOf_append_slash]
      rfl
    · rw [join, h, if_neg Bool.false_ne_true, hlast, beq_self_eq_true, Bool.or_true, if_pos rfl,
        segments, htext, String.append_empty, segmentsOf_append_slash]
  · refine ⟨segmentsOf p.text, [], (List.append_nil _).symm, by simp, fun rest h => ?_⟩
    rw [join, h, if_neg Bool.false_ne_true, if_neg (by simp [hempty, hlast]), segments,
      segmentsOf_append_slash]

/-- Going down through names puts them after the segments of a folder. -/
theorem exists_segments_joinAll (p : Path) : ∃ front idle, p.segments = front ++ idle ∧
    (∀ s ∈ idle, s = "") ∧ ∀ names : List String, names ≠ [] →
      (∀ name ∈ names, IsEntryName name) → (p.joinAll names).segments = front ++ names := by
  obtain ⟨front, idle, hp, hidle, hfront⟩ := exists_segments_join p
  refine ⟨front, idle, hp, hidle, fun names hne h => ?_⟩
  rw [joinAll_eq hne h, hfront _ (startsAtRoot_pathOf hne h),
    segmentsOf_pathOf hne fun name hn => (h name hn).2]

theorem isAbsolute_joinAll (p : Path) {names : List String} (hne : names ≠ [])
    (h : ∀ name ∈ names, IsEntryName name) : (p.joinAll names).isAbsolute = p.isAbsolute := by
  rw [joinAll_eq hne h, isAbsolute_join p (startsAtRoot_pathOf hne h)]

end Path

/-! ## Places of joined paths -/

namespace Disk

theorem start_joinAll (d : Disk) (p : Path) {names : List String} (hne : names ≠ [])
    (h : ∀ name ∈ names, IsEntryName name) : d.start (p.joinAll names) = d.start p := by
  rw [start, start, Path.isAbsolute_joinAll p hne h]

/-- The place of a path down from a folder is the place of the folder, and then the names. -/
theorem placeOf_joinAll (d : Disk) (p : Path) {names : List String} (hne : names ≠ [])
    (h : ∀ name ∈ names, IsEntryName name ∧ name ≠ "." ∧ name ≠ "..") :
    d.placeOf (p.joinAll names) = d.placeOf p ++ names := by
  have hnames : ∀ name ∈ names, IsEntryName name := fun name hn => (h name hn).1
  obtain ⟨front, idle, hp, hidle, hfront⟩ := p.exists_segments_joinAll
  rw [placeOf, placeOf, d.start_joinAll p hne hnames, hfront names hne hnames, hp, goAlong_append,
    goAlong_append, goAlong_of_names fun name hn => ⟨(h name hn).1.1, (h name hn).2⟩,
    goAlong_of_idle fun s hs => .inl (hidle s hs), List.reverse_append, List.reverse_reverse]

end Disk

end PageLoom
