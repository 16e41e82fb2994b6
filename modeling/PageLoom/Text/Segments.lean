/-!
# Segments of a path

A path is a list of segments joined by `/`.  Every text splits into at least one
segment, and joining undoes splitting.
-/

namespace PageLoom

/-- Split at every `/`. -/
def splitSlashes : List Char → List (List Char)
  | [] => [[]]
  | c :: cs =>
      if c = '/' then [] :: splitSlashes cs
      else
        match splitSlashes cs with
        | [] => [[c]]
        | s :: ss => (c :: s) :: ss

/-- Segments with a `/` between neighbours. -/
def joinSlashes : List (List Char) → List Char
  | [] => []
  | [s] => s
  | s :: t :: ss => s ++ '/' :: joinSlashes (t :: ss)

theorem splitSlashes_ne_nil (cs : List Char) : splitSlashes cs ≠ [] := by
  cases cs with
  | nil => simp [splitSlashes]
  | cons c cs =>
      simp only [splitSlashes]
      split
      · simp
      · split <;> simp

theorem joinSlashes_splitSlashes (cs : List Char) : joinSlashes (splitSlashes cs) = cs := by
  induction cs with
  | nil => rfl
  | cons c cs ih =>
      cases hs : splitSlashes cs with
      | nil => exact absurd hs (splitSlashes_ne_nil cs)
      | cons s ss =>
          rw [hs] at ih
          by_cases h : c = '/'
          · simp [splitSlashes, h, hs, joinSlashes, ih]
          · simp only [splitSlashes, if_neg h, hs]
            cases ss with
            | nil => simpa [joinSlashes] using ih
            | cons t ts =>
                simp only [joinSlashes, List.cons_append] at ih ⊢
                rw [ih]

/-- A segment has no `/` in it. -/
theorem not_mem_of_mem_splitSlashes {cs s : List Char} (h : s ∈ splitSlashes cs) : '/' ∉ s := by
  induction cs generalizing s with
  | nil => simp_all [splitSlashes]
  | cons c cs ih =>
      by_cases hc : c = '/'
      · simp only [splitSlashes, if_pos hc, List.mem_cons] at h
        rcases h with rfl | h
        · simp
        · exact ih h
      · cases hs : splitSlashes cs with
        | nil => exact absurd hs (splitSlashes_ne_nil cs)
        | cons t ts =>
            simp only [splitSlashes, if_neg hc, hs, List.mem_cons] at h
            rcases h with rfl | h
            · simp only [List.mem_cons, not_or]
              exact ⟨fun e => hc e.symm, ih (by simp [hs])⟩
            · exact ih (by simp [hs, h])

theorem splitSlashes_of_not_mem {s : List Char} (h : '/' ∉ s) : splitSlashes s = [s] := by
  induction s with
  | nil => rfl
  | cons c cs ih =>
      simp only [List.mem_cons, not_or] at h
      simp [splitSlashes, Ne.symm h.1, ih h.2]

theorem splitSlashes_append {s : List Char} (h : '/' ∉ s) (cs : List Char) :
    splitSlashes (s ++ '/' :: cs) = s :: splitSlashes cs := by
  induction s with
  | nil => simp [splitSlashes]
  | cons c s ih =>
      simp only [List.mem_cons, not_or] at h
      simp [splitSlashes, Ne.symm h.1, ih h.2]

/-- Splitting undoes joining, for one segment or more. -/
theorem splitSlashes_joinSlashes {ss : List (List Char)} (hne : ss ≠ [])
    (h : ∀ s ∈ ss, '/' ∉ s) : splitSlashes (joinSlashes ss) = ss := by
  induction ss with
  | nil => exact absurd rfl hne
  | cons s ss ih =>
      cases ss with
      | nil => exact splitSlashes_of_not_mem (h s (by simp))
      | cons t ts =>
          rw [joinSlashes, splitSlashes_append (h s (by simp)),
            ih (by simp) fun u hu => h u (by simp [hu])]

/-- The segments of a path. -/
def segmentsOf (path : String) : List String := (splitSlashes path.toList).map String.ofList

/-- The path of a list of segments. -/
def pathOf (segments : List String) : String :=
  String.ofList (joinSlashes (segments.map String.toList))

theorem pathOf_segmentsOf (path : String) : pathOf (segmentsOf path) = path := by
  simp [pathOf, segmentsOf, Function.comp_def, joinSlashes_splitSlashes]

theorem segmentsOf_ne_nil (path : String) : segmentsOf path ≠ [] := by
  simp [segmentsOf, splitSlashes_ne_nil]

theorem segmentsOf_pathOf {segments : List String} (hne : segments ≠ [])
    (h : ∀ s ∈ segments, '/' ∉ s.toList) : segmentsOf (pathOf segments) = segments := by
  rw [segmentsOf, pathOf, String.toList_ofList, splitSlashes_joinSlashes (by simpa using hne)]
  · simp [Function.comp_def]
  · simpa using h

end PageLoom
