import PageLoom.Proofs.Markup.Head

/-!
# Hoisting

`hoist` collects resources, the first of each, and sorts them stably, links before all else
(`hoist_eq_mergeSort`).  So the first occurrences of a kind are what matters.  They can be found in
that kind alone (`ofKind_firsts`), and in the parts of a list before the whole
(`firsts_append_firsts`).  Hence hoisting the parts first changes nothing, and neither does a
resource that is declared again (`stablyHoisted_hoist`).
-/

namespace PageLoom

/-! ## First occurrences -/

/-- Add a resource unless it is there. -/
def collect (unique : List String) (r : String) : List String :=
  if r ∈ unique then unique else unique ++ [r]

/-- A second part adds what the first one does not have. -/
theorem firsts_append (rs ss : List String) :
    firsts (rs ++ ss) = firsts rs ++ (firsts ss).filter fun s => decide (s ∉ rs) := by
  induction rs with
  | nil => simp [firsts]
  | cons r rs ih =>
      have hnew : ((firsts ss).filter fun s => decide (s ∉ rs)).filter (· != r) =
          (firsts ss).filter fun s => decide (s ∉ r :: rs) := by
        rw [List.filter_filter]
        refine List.filter_congr fun s _ => ?_
        by_cases h : s = r <;> simp [h]
      rw [List.cons_append, firsts, ih, List.filter_append, hnew, firsts, List.cons_append]

theorem firsts_eq_foldl (rs : List String) : firsts rs = rs.foldl collect [] := by
  induction rs using List.reverseRecOn with
  | nil => rfl
  | append_singleton rs r ih =>
      rw [List.foldl_concat, ← ih, firsts_append, collect]
      by_cases h : r ∈ rs
      · rw [if_pos (mem_firsts.mpr h)]
        simp [firsts, h]
      · rw [if_neg fun hr => h (mem_firsts.mp hr)]
        simp [firsts, h]

theorem firsts_of_nodup {rs : List String} (h : rs.Nodup) : firsts rs = rs := by
  induction rs with
  | nil => rfl
  | cons r rs ih =>
      obtain ⟨hr, hrs⟩ := List.nodup_cons.mp h
      rw [firsts, ih hrs, List.filter_eq_self.mpr]
      intro s hs
      rw [bne_iff_ne]
      rintro rfl
      exact hr hs

/-- Dropping repetitions early, in each part, loses nothing. -/
theorem firsts_append_firsts (rs ss : List String) :
    firsts (firsts rs ++ firsts ss) = firsts (rs ++ ss) := by
  rw [firsts_append, firsts_append, firsts_of_nodup (nodup_firsts rs),
    firsts_of_nodup (nodup_firsts ss)]
  simp only [mem_firsts]

/-- What is declared again adds nothing, whatever follows it. -/
theorem firsts_append_of_subset {rs again : List String} (h : again ⊆ rs) (more : List String) :
    firsts (rs ++ again ++ more) = firsts (rs ++ more) := by
  have hold : (firsts again).filter (fun s => decide (s ∉ rs)) = [] := by
    rw [List.filter_eq_nil_iff]
    intro s hs
    simpa using h (mem_firsts.mp hs)
  have hsame : ∀ s, s ∈ rs ++ again ↔ s ∈ rs := fun s => by
    rw [List.mem_append]
    exact ⟨fun hs => hs.elim id fun hs => h hs, .inl⟩
  rw [firsts_append, firsts_append rs again, hold, List.append_nil, firsts_append rs more]
  simp only [hsame]

/-! ## Kinds -/

/-- The resources of a list that are linked to, or those that are not. -/
def ofKind (linked : Bool) (rs : List String) : List String := rs.filter (isLink · == linked)

/-- Whether a resource may stand before another one: links before all else. -/
def mayPrecede (r s : String) : Bool := isLink r || !isLink s

theorem mayPrecede_trans (r s t : String) (hrs : mayPrecede r s = true)
    (hst : mayPrecede s t = true) : mayPrecede r t = true := by
  rw [mayPrecede, Bool.or_eq_true, Bool.not_eq_true'] at *
  rcases hrs with hr | hs
  · exact .inl hr
  · rcases hst with hs' | ht
    · rw [hs] at hs'
      cases hs'
    · exact .inr ht

/-- Any two resources may stand in at least one order. -/
theorem mayPrecede_total (r s : String) : (mayPrecede r s || mayPrecede s r) = true := by
  rw [mayPrecede, mayPrecede]
  cases isLink r <;> simp

theorem mem_ofKind {linked : Bool} {r : String} {rs : List String} :
    r ∈ ofKind linked rs ↔ r ∈ rs ∧ isLink r = linked := by
  rw [ofKind, List.mem_filter, beq_iff_eq]

theorem ofKind_cons (linked : Bool) (r : String) (rs : List String) : ofKind linked (r :: rs) =
    if isLink r = linked then r :: ofKind linked rs else ofKind linked rs := by
  by_cases h : isLink r = linked <;> simp [ofKind, h]

theorem ofKind_append (linked : Bool) (rs ss : List String) :
    ofKind linked (rs ++ ss) = ofKind linked rs ++ ofKind linked ss := List.filter_append ..

theorem ofKind_filter (linked : Bool) (p : String → Bool) (rs : List String) :
    ofKind linked (rs.filter p) = (ofKind linked rs).filter p := by
  rw [ofKind, ofKind, List.filter_filter, List.filter_filter]
  simp only [Bool.and_comm]

theorem ofKind_eq_self {linked : Bool} {rs : List String} (h : ∀ r ∈ rs, isLink r = linked) :
    ofKind linked rs = rs :=
  List.filter_eq_self.mpr fun r hr => beq_iff_eq.mpr (h r hr)

theorem ofKind_eq_nil {linked : Bool} {rs : List String} (h : ∀ r ∈ rs, isLink r ≠ linked) :
    ofKind linked rs = [] :=
  List.filter_eq_nil_iff.mpr fun r hr hk => h r hr (eq_of_beq hk)

/-- The first occurrences of a kind can be found among that kind alone. -/
theorem ofKind_firsts (linked : Bool) (rs : List String) :
    ofKind linked (firsts rs) = firsts (ofKind linked rs) := by
  induction rs with
  | nil => rfl
  | cons r rs ih =>
      rw [firsts, ofKind_cons, ofKind_cons, ofKind_filter, ih]
      by_cases hr : isLink r = linked
      · rw [if_pos hr, if_pos hr, firsts]
      · -- A resource of the other kind is not there to be left out.
        rw [if_neg hr, if_neg hr, List.filter_eq_self.mpr]
        intro s hs
        rw [bne_iff_ne]
        rintro rfl
        exact hr (mem_ofKind.mp (mem_firsts.mp hs)).2

theorem hoist_eq (rs : List String) :
    hoist rs = ofKind true (firsts rs) ++ ofKind false (firsts rs) := by
  simp [hoist, ofKind, isLink]

theorem ofKind_ofKind (linked other : Bool) (rs : List String) :
    ofKind linked (ofKind other rs) = if linked = other then ofKind other rs else [] := by
  split
  next h => exact ofKind_eq_self fun r hr => (mem_ofKind.mp hr).2.trans h.symm
  next h => exact ofKind_eq_nil fun r hr hk => h (hk.symm.trans (mem_ofKind.mp hr).2)

/-- Hoisting does not change the order within a kind. -/
theorem ofKind_hoist (linked : Bool) (rs : List String) :
    ofKind linked (hoist rs) = ofKind linked (firsts rs) := by
  rw [hoist_eq, ofKind_append, ofKind_ofKind, ofKind_ofKind]
  cases linked <;> simp

/-- A list with its links in front is its links and then the others. -/
theorem ofKind_append_ofKind {rs : List String} (h : rs.Pairwise fun r s => mayPrecede r s = true) :
    ofKind true rs ++ ofKind false rs = rs := by
  induction h with
  | nil => rfl
  | @cons r rs hr _ ih =>
      cases hlink : isLink r with
      | true => simpa [ofKind_cons, hlink] using ih
      | false =>
          -- No link stands behind one that is none.
          have hnone : ∀ s ∈ r :: rs, isLink s = false := by
            intro s hs
            rcases List.mem_cons.mp hs with rfl | hs
            · exact hlink
            · simpa [mayPrecede, hlink] using hr s hs
          rw [ofKind_eq_nil fun s hs => by simp [hnone s hs], ofKind_eq_self hnone, List.nil_append]

/-- A stable sort keeps the resources of a kind in their order. -/
theorem ofKind_mergeSort (linked : Bool) (rs : List String) :
    ofKind linked (rs.mergeSort mayPrecede) = ofKind linked rs := by
  have hkind : (ofKind linked rs).Pairwise fun r s => mayPrecede r s = true := by
    refine List.pairwise_of_forall_mem_list fun r hr s hs => ?_
    rw [mayPrecede, (mem_ofKind.mp hr).2, (mem_ofKind.mp hs).2, Bool.or_not_self]
  have hsub : (ofKind linked rs).Sublist (rs.mergeSort mayPrecede) :=
    List.sublist_mergeSort mayPrecede_trans mayPrecede_total hkind List.filter_sublist
  have hkept : (ofKind linked rs).Sublist (ofKind linked (rs.mergeSort mayPrecede)) := by
    have h := hsub.filter (isLink · == linked)
    rwa [← ofKind, ← ofKind, ofKind_ofKind, if_pos rfl] at h
  exact (hkept.eq_of_length ((rs.mergeSort_perm mayPrecede).filter _).length_eq.symm).symm

/-! ## Hoisted lists -/

/-- Hoisting is the stable sort by kind of what was collected without repetitions. -/
theorem hoist_eq_mergeSort (rs : List String) :
    hoist rs = (rs.foldl collect []).mergeSort mayPrecede := by
  have hsorted : ((firsts rs).mergeSort mayPrecede).Pairwise fun r s => mayPrecede r s = true :=
    List.pairwise_mergeSort mayPrecede_trans mayPrecede_total _
  rw [← firsts_eq_foldl, ← ofKind_append_ofKind hsorted, ofKind_mergeSort, ofKind_mergeSort,
    hoist_eq]

/-- Hoisting the parts of a list first changes nothing. -/
theorem hoist_append (rs ss : List String) : hoist (rs ++ ss) = hoist (hoist rs ++ hoist ss) := by
  have hkind : ∀ linked, ofKind linked (firsts (hoist rs ++ hoist ss)) =
      ofKind linked (firsts (rs ++ ss)) := fun linked => by
    calc ofKind linked (firsts (hoist rs ++ hoist ss))
        = firsts (ofKind linked (firsts rs) ++ ofKind linked (firsts ss)) := by
          rw [ofKind_firsts, ofKind_append, ofKind_hoist, ofKind_hoist]
      _ = ofKind linked (firsts (firsts rs ++ firsts ss)) := by
          rw [← ofKind_append, ← ofKind_firsts]
      _ = ofKind linked (firsts (rs ++ ss)) := by rw [firsts_append_firsts]
  rw [hoist_eq (hoist rs ++ hoist ss), hkind, hkind, ← hoist_eq]

/-- Hoisting again changes nothing. -/
theorem hoist_hoist (rs : List String) : hoist (hoist rs) = hoist rs := by
  have h := hoist_append rs []
  rw [List.append_nil, show hoist [] = [] from rfl, List.append_nil] at h
  exact h.symm

/-- The conditions on a list for a head leave no choice. -/
theorem Hoisted.unique {declared rs ss : List String} (hrs : Hoisted declared rs)
    (hss : Hoisted declared ss) : rs = ss := by
  have hperm : rs.Perm ss := (List.perm_ext_iff_of_nodup hrs.distinct hss.distinct).mpr fun r =>
    (hrs.complete r).trans (hss.complete r).symm
  refine hperm.eq_of_pairwise (fun r s _ _ hbefore hafter => ?_) hrs.ordered hss.ordered
  rcases hbefore with ⟨hr, hs⟩ | ⟨hsame, hlt⟩
  · rcases hafter with ⟨hs', -⟩ | ⟨hsame, -⟩
    · rw [hs] at hs'
      cases hs'
    · rw [hr, hs] at hsame
      cases hsame
  · rcases hafter with ⟨hs, hr⟩ | ⟨-, hgt⟩
    · rw [hs, hr] at hsame
      cases hsame
    · exact absurd hgt (Nat.lt_asymm hlt)

/-- How the resources that are declared are hoisted. -/
structure StablyHoisted (declared : List String) : Prop where
  /-- Each of them stands there once, links first, and otherwise by first declaration. -/
  hoisted : Hoisted declared (hoist declared)
  /-- No other list is like that. -/
  unique : ∀ rs, Hoisted declared rs → rs = hoist declared
  /-- They are collected one after another and then sorted stably. -/
  sorted : hoist declared = (declared.foldl collect []).mergeSort mayPrecede
  /-- What is hoisted stays as it is. -/
  idempotent : hoist (hoist declared) = hoist declared
  /-- More resources can be hoisted on their own first. -/
  merged : ∀ more, hoist (declared ++ more) = hoist (hoist declared ++ hoist more)
  /-- Declaring some of them again, at the end or before others, changes nothing. -/
  repeated : ∀ again more, again ⊆ declared →
    hoist (declared ++ again ++ more) = hoist (declared ++ more)

/-- The order of the head is settled by what was declared, and merging parts of it in advance does
not matter. -/
theorem stablyHoisted_hoist (declared : List String) : StablyHoisted declared := by
  constructor
  case hoisted => exact hoisted_hoist declared
  case unique => exact fun rs h => h.unique (hoisted_hoist declared)
  case sorted => exact hoist_eq_mergeSort declared
  case idempotent => exact hoist_hoist declared
  case merged => exact hoist_append declared
  case repeated =>
    intro again more h
    rw [hoist, hoist, firsts_append_of_subset h]

example : hoist ["<meta>", "chart.js", "style.css", "chart.js", "<base>", "style.css"] =
    ["chart.js", "style.css", "<meta>", "<base>"] := by decide +kernel

end PageLoom
