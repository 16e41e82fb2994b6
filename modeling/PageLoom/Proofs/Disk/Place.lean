import PageLoom.Proofs.Disk.Growth

/-!
# The places of paths

Where a path leads can be read off its segments: names go down, `..` goes up, and other
segments stay.  `Disk.placeOf` is the place that this gives, whether something is there or not.
Everything that follows a path ends there (`Disk.eq_placeOf_of_locate`,
`Disk.eq_placeOf_of_followToMake`), so the place of a path is the same on all disks whose
relative paths start in the same folder.
-/

namespace PageLoom

/-! ## Going along segments -/

/-- Where segments lead from a folder.  Both places are given last name first. -/
def goAlong (place : List String) : List String → List String
  | [] => place
  | s :: rest =>
      if s = "" ∨ s = "." then goAlong place rest
      else if s = ".." then goAlong place.tail rest
      else goAlong (s :: place) rest

theorem goAlong_append (place xs ys : List String) :
    goAlong place (xs ++ ys) = goAlong (goAlong place xs) ys := by
  fun_induction goAlong place xs with
  | case1 place => rfl
  | case2 place s rest hidle ih => rw [List.cons_append, goAlong, if_pos hidle, ih]
  | case3 place rest hidle ih => rw [List.cons_append, goAlong, if_neg hidle, if_pos rfl, ih]
  | case4 place s rest hidle hup ih => rw [List.cons_append, goAlong, if_neg hidle, if_neg hup, ih]

/-- Segments that lead nowhere stay in a folder. -/
theorem goAlong_of_idle {idle : List String} (h : ∀ s ∈ idle, s = "" ∨ s = ".")
    (place : List String) : goAlong place idle = place := by
  induction idle with
  | nil => rfl
  | cons s idle ih =>
      rw [List.forall_mem_cons] at h
      rw [goAlong, if_pos h.1, ih h.2]

/-- Names go down. -/
theorem goAlong_of_names {names : List String}
    (h : ∀ name ∈ names, name ≠ "" ∧ name ≠ "." ∧ name ≠ "..") (place : List String) :
    goAlong place names = names.reverse ++ place := by
  induction names generalizing place with
  | nil => rfl
  | cons s names ih =>
      rw [List.forall_mem_cons] at h
      obtain ⟨⟨hempty, hdot, hup⟩, hnames⟩ := h
      rw [goAlong, if_neg (not_or.mpr ⟨hempty, hdot⟩), if_neg hup, ih hnames,
        List.reverse_cons, List.append_assoc]
      rfl

/-! ## Spots -/

/-- The place of a spot. -/
def Spot.place : Spot → List String
  | .taken place _ => place
  | .free place => place

/-- Following segments ends where they lead. -/
theorem Entry.place_of_follow {top : Entry} {place segments : List String} {spot : Spot}
    (h : top.follow place segments = .ok spot) : spot.place = (goAlong place segments).reverse := by
  induction segments generalizing place with
  | nil =>
      rw [follow] at h
      split at h
      next =>
        cases h
        rfl
      next => cases h
  | cons s rest ih =>
      rw [follow] at h
      split at h
      next => cases h
      next => cases h
      next =>
        by_cases hidle : s = "" ∨ s = "."
        · rw [if_pos hidle] at h
          rw [goAlong, if_pos hidle]
          exact ih h
        by_cases hup : s = ".."
        · rw [if_neg hidle, if_pos hup] at h
          rw [goAlong, if_neg hidle, if_pos hup]
          exact ih h
        rw [if_neg hidle, if_neg hup] at h
        rw [goAlong, if_neg hidle, if_neg hup]
        split at h
        next => cases h
        split at h
        next => exact ih h
        split at h
        next hrest =>
          cases h
          have hempty : ∀ r ∈ rest, r = "" ∨ r = "." := fun r hr =>
            .inl (beq_iff_eq.mp (List.all_eq_true.mp hrest r hr))
          rw [goAlong_of_idle hempty]
          rfl
        next => cases h

namespace Disk

/-! ## Places of paths -/

/-- The place that a path leads to, whether something is there or not. -/
def placeOf (d : Disk) (p : Path) : List String := (goAlong (d.start p) p.segments).reverse

theorem placeOf_of_here {d d' : Disk} (h : d'.here = d.here) (p : Path) :
    d'.placeOf p = d.placeOf p := by rw [placeOf, start, h, ← start, ← placeOf]

theorem eq_placeOf_of_locate {d : Disk} {p : Path} {place : List String} {e : Entry}
    (h : d.locate p = .ok (place, e)) : place = d.placeOf p :=
  Entry.place_of_follow (followFrom_eq_ok (locate_eq_ok_iff.mp h)).1

/-- The segments of a path without the empty ones at its end. -/
theorem exists_segments_eq (p : Path) : ∃ segments idle, p.segments = segments ++ idle ∧
    (p.segments.reverse.dropWhile (· == "")).reverse = segments ∧ (∀ s ∈ idle, s = "") ∧
    segments.getLast? ≠ some "" := by
  refine ⟨(p.segments.reverse.dropWhile (· == "")).reverse,
    (p.segments.reverse.takeWhile (· == "")).reverse, ?_, rfl, fun s hs => ?_, fun hlast => ?_⟩
  · rw [← List.reverse_append, List.takeWhile_append_dropWhile, List.reverse_reverse]
  · have := List.all_eq_true.mp List.all_takeWhile s (List.mem_reverse.mp hs)
    exact beq_iff_eq.mp this
  · rw [List.getLast?_reverse] at hlast
    have hhead := List.head?_dropWhile_not (· == "") p.segments.reverse
    rw [hlast] at hhead
    cases hhead

theorem eq_placeOf_of_followToMake {d : Disk} {p : Path} {spot : Spot}
    (h : d.followToMake p = .ok spot) : spot.place = d.placeOf p := by
  obtain ⟨segments, idle, hp, hstripped, hidle, -⟩ := exists_segments_eq p
  rw [followToMake, hstripped] at h
  rw [Entry.place_of_follow (followFrom_eq_ok h).1, placeOf, hp, goAlong_append,
    goAlong_of_idle fun s hs => .inl (hidle s hs)]

end Disk

end PageLoom
