import PageLoom.Proofs.Text.Search
import PageLoom.Proofs.Text.Classes

/-!
# Patterns

A pattern is matched from left to right.  Where a part of it can end at several places, all
of them are tried in an order of preference: what takes many characters ends late if it can,
what takes few ends early.  `Pattern.ways` lists the ways to match the start of a text in
that order.  `Pattern.find?` takes the preferred way at the first place that has any, and
`Pattern.Finds` says what is found when the search goes on after each match.

`head?_ways_between` is what this comes to for a pattern that keeps the text before a word,
without the blanks around it: the text is that before the first occurrence of the word,
trimmed.  The word must not start with a blank.
-/

namespace PageLoom

/-! ## Matching -/

/-- A pattern over characters. -/
inductive Pattern
  /-- A word. -/
  | word (w : List Char)
  /-- Characters of a class, the more the better. -/
  | many (p : Char → Bool)
  /-- Characters of a class, the fewer the better. -/
  | few (p : Char → Bool)
  /-- One pattern and then another. -/
  | seq (a b : Pattern)
  /-- A pattern whose text is kept. -/
  | keep (a : Pattern)

/-- A way to match the start of a text. -/
structure Way where
  /-- The text that matches. -/
  taken : List Char
  /-- The texts that are kept of it. -/
  kept : List (List Char)
  /-- The text that is left. -/
  rest : List Char

namespace Way

/-- Take one more character, before the others. -/
def push (c : Char) (x : Way) : Way := { x with taken := c :: x.taken }

/-- One way and then another. -/
def join (x y : Way) : Way := ⟨x.taken ++ y.taken, x.kept ++ y.kept, y.rest⟩

/-- Keep the text that matches. -/
def keep (x : Way) : Way := { x with kept := x.taken :: x.kept }

/-- Take one more character, and keep it before the text that is kept first. -/
def pushKept (c : Char) (x : Way) : Way :=
  { x.push c with kept := x.kept.modifyHead (c :: ·) }

end Way

/-- The ways to take characters of a class, the most first. -/
def manyWays (p : Char → Bool) : List Char → List Way
  | [] => [⟨[], [], []⟩]
  | c :: cs =>
      if p c then (manyWays p cs).map (Way.push c) ++ [⟨[], [], c :: cs⟩] else [⟨[], [], c :: cs⟩]

/-- The ways to take characters of a class, the fewest first. -/
def fewWays (p : Char → Bool) : List Char → List Way
  | [] => [⟨[], [], []⟩]
  | c :: cs => ⟨[], [], c :: cs⟩ :: if p c then (fewWays p cs).map (Way.push c) else []

namespace Pattern

/-- The ways to match the start of a text, the preferred one first. -/
def ways : Pattern → List Char → List Way
  | .word w, cs => if w.isPrefixOf cs then [⟨w, [], cs.drop w.length⟩] else []
  | .many p, cs => manyWays p cs
  | .few p, cs => fewWays p cs
  | .seq a b, cs => (a.ways cs).flatMap fun x => (b.ways x.rest).map x.join
  | .keep a, cs => (a.ways cs).map Way.keep

/-- The first match in a text, and the text before it. -/
def find? (p : Pattern) : List Char → Option (List Char × Way)
  | [] => (p.ways []).head?.map ([], ·)
  | c :: cs =>
      match (p.ways (c :: cs)).head? with
      | some x => some ([], x)
      | none => (p.find? cs).map fun (before, x) => (c :: before, x)

end Pattern

/-- A match in a text: where it starts, where it stops, and what is kept. -/
structure Match where
  start : Nat
  stop : Nat
  kept : List (List Char)

/-- What a pattern finds in a text that starts at an offset, one match after the other.  It
is meant for patterns that match no empty text. -/
inductive Pattern.Finds (p : Pattern) : Nat → List Char → List Match → Prop
  | none {n : Nat} {cs : List Char} (h : p.find? cs = none) : Finds p n cs []
  | some {n : Nat} {cs before : List Char} {x : Way} {found : List Match}
      (h : p.find? cs = some (before, x)) (hne : x.taken ≠ [])
      (hrest : Finds p (n + before.length + x.taken.length) x.rest found) :
      Finds p n cs (⟨n + before.length, n + before.length + x.taken.length, x.kept⟩ :: found)

/-! ## The preferred way -/

namespace Pattern

theorem head?_ways_word (w cs : List Char) :
    ((word w).ways cs).head? =
      if w.isPrefixOf cs then some ⟨w, [], cs.drop w.length⟩ else none := by
  rw [ways]
  split <;> rfl

/-- The first way that can be continued is preferred. -/
theorem head?_ways_seq (a b : Pattern) (cs : List Char) :
    ((seq a b).ways cs).head? =
      (a.ways cs).findSome? fun x => (b.ways x.rest).head?.map x.join := by
  rw [ways, List.head?_flatMap]
  simp only [List.head?_map]

theorem map_join_nil (o : Option Way) (rest : List Char) : o.map (Way.join ⟨[], [], rest⟩) = o := by
  cases o <;> rfl

theorem push_join (c : Char) (x : Way) (o : Option Way) :
    o.map (x.push c).join = (o.map x.join).map (Way.push c) := by
  cases o <;> rfl

theorem findSome?_push (b : Pattern) (c : Char) (xs : List Way) :
    ((xs.map (Way.push c)).findSome? fun x => (b.ways x.rest).head?.map x.join) =
      (xs.findSome? fun x => (b.ways x.rest).head?.map x.join).map (Way.push c) := by
  rw [List.findSome?_map, List.map_findSome?]
  congr 1
  funext x
  exact push_join c x _

variable (p : Char → Bool) (b : Pattern)

theorem head?_ways_many_nil : ((seq (many p) b).ways []).head? = (b.ways []).head? := by
  rw [head?_ways_seq, ways, manyWays, List.findSome?_singleton, map_join_nil]

/-- What takes many characters stops before one of the class only if the rest does not match
after it. -/
theorem head?_ways_many_cons (c : Char) (cs : List Char) :
    ((seq (many p) b).ways (c :: cs)).head? =
      ((if p c then ((seq (many p) b).ways cs).head?.map (Way.push c) else none).or
        (b.ways (c :: cs)).head?) := by
  rw [head?_ways_seq, head?_ways_seq, ways, manyWays, ways]
  split
  · rw [List.findSome?_append, findSome?_push, List.findSome?_singleton, map_join_nil]
  · rw [List.findSome?_singleton, map_join_nil, Option.none_or]

theorem pushKept_join (c : Char) (x : Way) (o : Option Way) :
    o.map (x.push c).keep.join = (o.map x.keep.join).map (Way.pushKept c) := by
  cases o <;> rfl

theorem head?_ways_few_nil :
    ((seq (keep (few p)) b).ways []).head? = (b.ways []).head?.map (Way.join ⟨[], [[]], []⟩) := by
  rw [head?_ways_seq]
  exact List.findSome?_singleton

/-- What takes few characters takes one of the class only if the rest does not match before
it. -/
theorem head?_ways_few_cons (c : Char) (cs : List Char) :
    ((seq (keep (few p)) b).ways (c :: cs)).head? =
      ((b.ways (c :: cs)).head?.map (Way.join ⟨[], [[]], c :: cs⟩)).or
        (if p c then ((seq (keep (few p)) b).ways cs).head?.map (Way.pushKept c) else none) := by
  rw [head?_ways_seq, head?_ways_seq, ways, ways, fewWays, ways, ways, List.map_cons,
    ← List.singleton_append, List.findSome?_append, List.findSome?_singleton]
  congr 1
  split
  · rw [List.map_map, List.findSome?_map, List.findSome?_map, List.map_findSome?]
    congr 1
    funext x
    exact pushKept_join c x _
  · rfl

/-! ## A word after blanks -/

variable {p} {w : List Char} {a : Char}

theorem not_prefix_of_head? (hhead : w.head? = some a) {c : Char} (hc : a ≠ c) (cs : List Char) :
    ¬ w.isPrefixOf (c :: cs) = true := by
  cases w with
  | nil => cases hhead
  | cons b w =>
      cases hhead
      rw [List.isPrefixOf, Bool.and_eq_true, beq_iff_eq]
      exact fun h => hc h.1

/-- A word that starts with no character of the class matches after all of them. -/
theorem head?_ways_many_word (hhead : w.head? = some a) (ha : p a = false) (cs : List Char) :
    ((seq (many p) (word w)).ways cs).head? =
      if w.isPrefixOf (cs.dropWhile p) then
        some ⟨cs.takeWhile p ++ w, [], (cs.dropWhile p).drop w.length⟩
      else none := by
  induction cs with
  | nil => rw [head?_ways_many_nil, head?_ways_word]; rfl
  | cons c cs ih =>
      rw [head?_ways_many_cons, ih, head?_ways_word]
      by_cases hc : p c = true
      · have hne : a ≠ c := by
          rintro rfl
          rw [hc] at ha
          cases ha
        rw [if_pos hc, if_neg (not_prefix_of_head? hhead hne cs), Option.or_none,
          List.takeWhile_cons_of_pos hc, List.dropWhile_cons_of_pos hc]
        split <;> rfl
      · rw [if_neg hc, Option.none_or, List.takeWhile_cons_of_neg hc,
          List.dropWhile_cons_of_neg hc, List.nil_append]

end Pattern

/-! ## What stands between blanks and a word -/

section Cut

variable {w : List Char} {a : Char} (hhead : w.head? = some a) (ha : isBlank a = false)

include hhead ha

/-- A word that starts with no blank occurs after the blanks at the start of a text. -/
theorem cutAt?_cons_of_blank {c : Char} (hc : isBlank c = true) (cs : List Char) :
    cutAt? w (c :: cs) = (cutAt? w cs).map fun (before, after) => (c :: before, after) := by
  have hne : a ≠ c := by
    rintro rfl
    rw [hc] at ha
    cases ha
  rw [cutAt?, if_neg (Pattern.not_prefix_of_head? hhead hne cs)]

theorem cutAt?_of_prefix_dropBlank {cs : List Char} (h : w.isPrefixOf (dropBlank cs) = true) :
    cutAt? w cs = some (cs.takeWhile isBlank, (dropBlank cs).drop w.length) := by
  induction cs with
  | nil =>
      cases w with
      | nil => cases hhead
      | cons b w => cases h
  | cons c cs ih =>
      by_cases hc : isBlank c = true
      · rw [dropBlank_cons_of_blank hc] at h ⊢
        rw [cutAt?_cons_of_blank hhead ha hc, ih h, List.takeWhile_cons_of_pos hc]
        rfl
      · rw [dropBlank_cons_of_not (by simpa using hc)] at h ⊢
        rw [cutAt?, if_pos h, List.takeWhile_cons_of_neg hc]

/-- Before a word that does not follow the blanks at the start, not all is blank. -/
theorem dropBlankRight_ne_nil_of_cutAt? {cs body after : List Char}
    (hpre : ¬ w.isPrefixOf (dropBlank cs) = true) (h : cutAt? w cs = some (body, after)) :
    dropBlankRight body ≠ [] := by
  intro hnil
  apply hpre
  have hblank := dropBlankRight_eq_nil_iff.mp hnil
  cases w with
  | nil => cases hhead
  | cons b w =>
      cases hhead
      rw [cutAt?_eq_some h, List.append_assoc, dropBlank, List.dropWhile_append_of_pos hblank,
        List.cons_append, List.dropWhile_cons_of_neg (by simp [ha]), ← List.cons_append]
      exact List.isPrefixOf_iff_prefix.mpr (List.prefix_append _ after)

/-- What takes few characters before blanks and a word takes what stands before the first
occurrence of the word, without the blanks at the end. -/
theorem Pattern.head?_ways_few_many_word (cs : List Char) :
    ((seq (keep (few fun _ => true)) (seq (many isBlank) (word w))).ways cs).head? =
      (cutAt? w cs).map fun (body, after) => ⟨body ++ w, [dropBlankRight body], after⟩ := by
  have hword : ∀ cs, ((seq (many isBlank) (word w)).ways cs).head? =
      if w.isPrefixOf (dropBlank cs) then
        some ⟨cs.takeWhile isBlank ++ w, [], (dropBlank cs).drop w.length⟩
      else none := head?_ways_many_word hhead ha
  induction cs with
  | nil =>
      rw [head?_ways_few_nil, hword]
      cases w with
      | nil => cases hhead
      | cons b w => rfl
  | cons c cs ih =>
      rw [head?_ways_few_cons, if_pos rfl, ih, hword]
      by_cases hpre : w.isPrefixOf (dropBlank (c :: cs)) = true
      · have hblank : dropBlankRight ((c :: cs).takeWhile isBlank) = [] :=
          dropBlankRight_eq_nil_iff.mpr (List.all_eq_true.mp List.all_takeWhile)
        rw [if_pos hpre, cutAt?_of_prefix_dropBlank hhead ha hpre]
        simp only [Option.map_some, Option.some_or, hblank]
        rfl
      · have hne := @dropBlankRight_ne_nil_of_cutAt? w a hhead ha (c :: cs)
        have hstart : ¬ w.isPrefixOf (c :: cs) = true := fun hw => by
          by_cases hc : a = c
          · subst hc
            exact hpre (by rwa [dropBlank_cons_of_not ha])
          · exact not_prefix_of_head? hhead hc cs hw
        rw [if_neg hpre, Option.map_none, Option.none_or, cutAt?, if_neg hstart]
        rw [cutAt?, if_neg hstart] at hne
        cases hcut : cutAt? w cs with
        | none => rfl
        | some found =>
            have hkept := dropBlankRight_cons (hne hpre (congrArg (Option.map _) hcut))
            simp only [Option.map_some, hkept]
            rfl

/-- What is kept between blanks and a word is what stands before the first occurrence of the
word, trimmed. -/
theorem Pattern.head?_ways_between (cs : List Char) :
    ((seq (many isBlank) (seq (keep (few fun _ => true)) (seq (many isBlank) (word w)))).ways
      cs).head? = (cutAt? w cs).map fun (body, after) => ⟨body ++ w, [trim body], after⟩ := by
  have hfew := head?_ways_few_many_word hhead ha
  induction cs with
  | nil =>
      rw [head?_ways_many_nil, hfew]
      cases w with
      | nil => cases hhead
      | cons b w => rfl
  | cons c cs ih =>
      rw [head?_ways_many_cons, ih, hfew]
      by_cases hc : isBlank c = true
      · rw [if_pos hc, cutAt?_cons_of_blank hhead ha hc]
        cases cutAt? w cs with
        | none => rfl
        | some found =>
            simp only [Option.map_some, Option.some_or, trim_cons_of_blank hc]
            rfl
      · rw [if_neg hc, Option.none_or]
        cases hcut : cutAt? w (c :: cs) with
        | none => rfl
        | some found =>
            obtain ⟨body, after⟩ := found
            -- The text before the word is empty or starts with `c`.
            have hbody : dropBlank body = body := by
              cases body with
              | nil => rfl
              | cons d body =>
                  have hall := cutAt?_eq_some hcut
                  rw [List.cons_append, List.cons_append, List.cons.injEq] at hall
                  exact dropBlank_cons_of_not (by simpa [← hall.1] using hc) body
            simp only [Option.map_some, trim, hbody]

end Cut

end PageLoom
