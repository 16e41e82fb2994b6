import PageLoom.Proofs.Disk.Descent
import PageLoom.Proofs.Tree.History

/-!
# Paths as addresses

The path of a node leads from the root of its tree to the node, and to no other.  A path that
is no node's is not found: one with an empty segment is none, since names are not empty, and
what is found at a longer path is below what is found at the shorter one
(`WellFormed.find_append_slash`), so nothing is found below a page.

On disk only pages have paths of their own.  Different pages of one tree have different ones.
-/

namespace PageLoom

namespace Tree

variable {P : Item → Prop} {t : Tree}

/-! ## Paths of nodes -/

theorem lt_size_of_find {r id : Nat} {path : String} (h : t.find r path = .ok id) :
    r < t.size := by
  rw [find, node] at h
  split at h
  next => cases h
  next n hn =>
    split at hn
    next hr => exact lt_size_of_get? hr
    next => cases hn

theorem lt_size_of_logicalPath {id : Nat} {path : String} (h : t.logicalPath id = .ok path) :
    id < t.size := by
  refine Nat.lt_of_not_le fun hle => ?_
  rw [logicalPath, ancestry_of_unknown hle] at h
  cases h

/-- The segments of a path are the names down to its node. -/
theorem WellFormed.segmentsOf_of_logicalPath (h : t.WellFormed P) {id : Nat} {path : String}
    (hpath : t.logicalPath id = .ok path) : segmentsOf path = t.namesTo id := by
  have hid := lt_size_of_logicalPath hpath
  rw [h.logicalPath_eq hid] at hpath
  cases hpath
  exact h.segmentsOf_namesTo hid

theorem WellFormed.ne_empty_of_mem_segmentsOf (h : t.WellFormed P) {id : Nat} {path : String}
    (hpath : t.logicalPath id = .ok path) : "" ∉ segmentsOf path := by
  intro hempty
  rw [h.segmentsOf_of_logicalPath hpath] at hempty
  have hnames := h.forall_keysTo (fun item _ => item.isNodeName_name) id
  exact (hnames "" hempty).1 rfl

/-! ## Paths that are not found -/

/-- A path that no node of a tree has is not found from its root. -/
theorem WellFormed.find_eq_error (h : t.WellFormed P) {r : Nat} (hr : r < t.size)
    (hroot : t.parent? r = none) {path : String}
    (hnone : ∀ id, t.rootOf id = .ok r → t.logicalPath id ≠ .ok path) :
    t.find r path = .error (.pathNotFound path) := by
  cases hfind : t.find r path with
  | error e => rw [eq_of_find_eq_error hr hfind]
  | ok id =>
      obtain ⟨hrid, hpath⟩ := (h.find_eq_ok_iff hr hroot).mp hfind
      exact absurd hpath (hnone id hrid)

/-- What is found at a longer path is found by following the other names from what is found
at the shorter one. -/
theorem WellFormed.find_append_slash (h : t.WellFormed P) {r id k : Nat}
    (hroot : t.parent? r = none) {path rest : String} (hid : t.find r path = .ok id) :
    t.find r (path ++ "/" ++ rest) = .ok k ↔ t.descend? id (segmentsOf rest) = some k := by
  have hr := lt_size_of_find hid
  obtain ⟨hrid, hpath⟩ := (h.find_eq_ok_iff hr hroot).mp hid
  have hnames := h.segmentsOf_of_logicalPath hpath
  obtain ⟨s, root, names, hs, hitem, hcons, hdown⟩ := h.exists_descend? (lt_size_of_rootOf hrid)
  cases hrid.symm.trans hs
  obtain ⟨n, hn⟩ := exists_get? hr
  have hname : root.name = n.name := by
    rw [item?_of_get? hn] at hitem
    cases hitem
    rfl
  have hsegments : segmentsOf (path ++ "/" ++ rest) = root.name :: (names ++ segmentsOf rest) := by
    rw [segmentsOf_append_slash, hnames, hcons]
    rfl
  rw [find, node, hn]
  simp only [hsegments, if_pos hname, descend?_append, hdown, Option.bind_some]
  cases t.descend? id (segmentsOf rest) <;> simp

/-- Nothing is found below a page. -/
theorem WellFormed.find_below_page (h : t.WellFormed P) {r id : Nat} {p : Page}
    (hroot : t.parent? r = none) {path : String} (hid : t.find r path = .ok id)
    (hp : t.item? id = some (.page p)) (rest : String) :
    t.find r (path ++ "/" ++ rest) = .error (.pathNotFound (path ++ "/" ++ rest)) := by
  have hr := lt_size_of_find hid
  cases hfind : t.find r (path ++ "/" ++ rest) with
  | error e => rw [eq_of_find_eq_error hr hfind]
  | ok k =>
      have hdown := (h.find_append_slash hroot hid).mp hfind
      cases hsegments : segmentsOf rest with
      | nil => exact absurd hsegments (segmentsOf_ne_nil rest)
      | cons name names =>
          rw [hsegments, descend?] at hdown
          obtain ⟨c, hc, -⟩ := Option.bind_eq_some_iff.mp hdown
          obtain ⟨hparent, -⟩ := h.child?_eq_some_iff.mp hc
          obtain ⟨doc, hdoc, -⟩ := h.fits_of_parent? hparent
          cases hp.symm.trans hdoc

/-! ## Paths on disk -/

/-- Pages of one tree with the same path on disk are the same. -/
theorem WellFormed.eq_of_physicalPath (h : t.WellFormed P) {a b : Nat} {p q : Page}
    (ha : t.item? a = some (.page p)) (hb : t.item? b = some (.page q))
    (hroot : t.rootOf a = t.rootOf b) (hpath : t.physicalPath a = t.physicalPath b) : a = b := by
  have hak := lt_size_of_item? ha
  have hbk := lt_size_of_item? hb
  rw [h.physicalPath_of_page ha, h.physicalPath_of_page hb] at hpath
  have hentries := congrArg segmentsOf (Except.ok.inj hpath)
  rw [h.segmentsOf_entriesTo hak, h.segmentsOf_entriesTo hbk] at hentries
  exact h.eq_of_entriesTo hak hroot hentries

/-! ## Addresses -/

/-- The paths of nodes are their addresses, and those of pages on disk as well. -/
structure Addressed (t : Tree) : Prop where
  /-- Every node is found at its path from the root of its tree. -/
  find_logicalPath : ∀ id, id < t.size → ∃ root path, t.rootOf id = .ok root ∧
    t.logicalPath id = .ok path ∧ t.find root path = .ok id
  /-- What is found at a path from a root has this path and this root. -/
  logicalPath_of_find : ∀ root path id, t.parent? root = none → t.find root path = .ok id →
    t.logicalPath id = .ok path ∧ t.rootOf id = .ok root
  /-- Every other path is not found. -/
  not_found : ∀ root path, root < t.size → t.parent? root = none →
    (∀ id, t.rootOf id = .ok root → t.logicalPath id ≠ .ok path) →
    t.find root path = .error (.pathNotFound path)
  /-- The empty path is not found. -/
  empty_not_found : ∀ root, root < t.size → t.parent? root = none →
    t.find root "" = .error (.pathNotFound "")
  /-- No path with an empty segment is found. -/
  gap_not_found : ∀ root path, root < t.size → t.parent? root = none → "" ∈ segmentsOf path →
    t.find root path = .error (.pathNotFound path)
  /-- A path with more segments than that of a node leads on from this node, or is not found. -/
  find_longer : ∀ root path rest id, t.parent? root = none → t.find root path = .ok id →
    t.find root (path ++ "/" ++ rest) =
      match t.descend? id (segmentsOf rest) with
      | some k => .ok k
      | none => .error (.pathNotFound (path ++ "/" ++ rest))
  /-- No path goes on below a page. -/
  below_page_not_found : ∀ root path rest id p, t.parent? root = none →
    t.find root path = .ok id → t.item? id = some (.page p) →
    t.find root (path ++ "/" ++ rest) = .error (.pathNotFound (path ++ "/" ++ rest))
  /-- Different pages of one tree have different paths on disk. -/
  pages_apart : ∀ a b p q, t.item? a = some (.page p) → t.item? b = some (.page q) →
    t.rootOf a = t.rootOf b → a ≠ b →
    ∃ x y, t.physicalPath a = .ok x ∧ t.physicalPath b = .ok y ∧ x ≠ y

theorem WellFormed.addressed (h : t.WellFormed P) : t.Addressed where
  find_logicalPath id hid := by
    obtain ⟨r, hr, hrk, hrp⟩ := h.exists_rootOf hid
    have hpath := h.logicalPath_eq hid
    exact ⟨r, _, hr, hpath, (h.find_eq_ok_iff hrk hrp).mpr ⟨hr, hpath⟩⟩
  logicalPath_of_find root path id hroot hfind :=
    ((h.find_eq_ok_iff (lt_size_of_find hfind) hroot).mp hfind).symm
  not_found _ _ hr hroot hnone := h.find_eq_error hr hroot hnone
  empty_not_found root hr hroot := by
    refine h.find_eq_error hr hroot fun id _ hpath => ?_
    exact h.ne_empty_of_mem_segmentsOf hpath (by decide)
  gap_not_found root path hr hroot hgap :=
    h.find_eq_error hr hroot fun _ _ hpath => h.ne_empty_of_mem_segmentsOf hpath hgap
  find_longer root path rest id hroot hid := by
    have hiff : ∀ k, t.find root (path ++ "/" ++ rest) = .ok k ↔
        t.descend? id (segmentsOf rest) = some k := fun k => h.find_append_slash hroot hid
    cases hdown : t.descend? id (segmentsOf rest) with
    | some k => exact (hiff k).mpr hdown
    | none =>
        cases hfind : t.find root (path ++ "/" ++ rest) with
        | error e => rw [eq_of_find_eq_error (lt_size_of_find hid) hfind]
        | ok k => cases hdown.symm.trans ((hiff k).mp hfind)
  below_page_not_found _ _ rest _ _ hroot hid hp := h.find_below_page hroot hid hp rest
  pages_apart a b p q ha hb hroot hne := by
    refine ⟨_, _, h.physicalPath_of_page ha, h.physicalPath_of_page hb, fun heq => hne ?_⟩
    refine h.eq_of_physicalPath ha hb hroot ?_
    rw [h.physicalPath_of_page ha, h.physicalPath_of_page hb, heq]

/-- Whatever the changes, paths are addresses. -/
theorem addressed_make (changes : List Change) : (make changes).Addressed :=
  (wellFormed_make (P := fun _ => True) fun c _ => by cases c <;> trivial).addressed

end Tree

end PageLoom
