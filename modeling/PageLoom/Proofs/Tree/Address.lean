import PageLoom.Proofs.Tree.Climb

/-!
# Addresses in a well-formed tree

The path of a node joins the names down to it, and its path on disk the entries down
to it or, for a document, down to its index (`logicalPath_eq`, `physicalPath_eq`).

Siblings differ in name, so following names from a root finds every node at its own
path and nothing else (`find_eq_ok_iff`), and a path that is not found is reported as
such (`eq_of_find_eq_error`).  Siblings differ in entry, so different pages of one tree have
different paths on disk (`eq_of_entriesTo`).
-/

namespace PageLoom

theorem Item.isNodeName_name (item : Item) : IsNodeName item.name := by
  cases item with
  | page p => exact p.isNodeName_name
  | document d => exact d.isNodeName_name

theorem Item.isEntryName_entry (item : Item) : IsEntryName item.entry := by
  cases item with
  | page p => exact p.isEntryName_file
  | document d => exact d.isEntryName_folder

namespace Tree

variable {P : Item → Prop} {t : Tree}

/-! ## Siblings -/

/-- Keys without repetition tell apart what they are keys of. -/
theorem eq_of_nodup_keys {f : Nat → Option Item} {key : Item → String} {ids : List Nat}
    (nodup : ((ids.filterMap f).map key).Nodup) {a b : Nat} {i j : Item} (ha : a ∈ ids)
    (hb : b ∈ ids) (hi : f a = some i) (hj : f b = some j) (hij : key i = key j) : a = b := by
  induction ids with
  | nil => cases ha
  | cons c cs ih =>
      have mem : ∀ d k, d ∈ cs → f d = some k → key k ∈ (cs.filterMap f).map key := fun d k hd hk =>
        List.mem_map_of_mem (List.mem_filterMap.mpr ⟨d, hd, hk⟩)
      have tail : ((cs.filterMap f).map key).Nodup :=
        nodup.sublist (((List.sublist_cons_self c cs).filterMap f).map key)
      rw [List.mem_cons] at ha hb
      rcases ha with rfl | ha <;> rcases hb with rfl | hb
      · rfl
      · rw [List.filterMap_cons, hi, List.map_cons, List.nodup_cons] at nodup
        exact absurd (hij ▸ mem b j hb hj) nodup.1
      · rw [List.filterMap_cons, hj, List.map_cons, List.nodup_cons] at nodup
        exact absurd (hij ▸ mem a i ha hi) nodup.1
      · exact ih tail ha hb

/-- A node that has a child is a document, whose children differ and have one index. -/
theorem WellFormed.fits_of_parent? (h : t.WellFormed P) {c d : Nat} (hp : t.parent? c = some d) :
    ∃ doc, t.item? d = some (.document doc) ∧ ((t.itemsBelow d).map Item.name).Nodup ∧
      ((t.itemsBelow d).map Item.entry).Nodup ∧ (t.itemsBelow d).countP Item.isIndex = 1 := by
  obtain ⟨item, hd⟩ := exists_item? (h.lt_size_of_isParent hp)
  have hf := h.fits d item hd
  cases item with
  | document doc => exact ⟨doc, hd, hf⟩
  | page p =>
      obtain ⟨i, hi⟩ := exists_item? (lt_size_of_parent? hp)
      have hm : i ∈ t.itemsBelow d :=
        List.mem_filterMap.mpr ⟨c, (h.mem_childrenOf c d).mpr hp, hi⟩
      rw [hf] at hm
      cases hm

/-- Only a document is a root that others have. -/
theorem WellFormed.root_is_document (h : t.WellFormed P) {c d r : Nat}
    (hp : t.parent? c = some d) (hr : t.rootOf c = .ok r) :
    ∃ doc, t.item? r = some (.document doc) := by
  have hd := h.lt_size_of_isParent hp
  revert c
  refine h.upward (motive := fun d => ∀ {c}, t.parent? c = some d → t.rootOf c = .ok r →
    ∃ doc, t.item? r = some (.document doc)) (fun d hd hroot c hp hr => ?_)
    (fun d e hde ih c hp hr => ?_) d hd
  · rw [h.rootOf_of_parent? hp, rootOf_of_root hd hroot] at hr
    cases hr
    obtain ⟨doc, hdoc, -⟩ := h.fits_of_parent? hp
    exact ⟨doc, hdoc⟩
  · rw [h.rootOf_of_parent? hp] at hr
    exact ih hde hr

theorem WellFormed.eq_of_name (h : t.WellFormed P) {a b d : Nat} {i j : Item}
    (ha : t.parent? a = some d) (hb : t.parent? b = some d) (hi : t.item? a = some i)
    (hj : t.item? b = some j) (hij : i.name = j.name) : a = b := by
  obtain ⟨doc, -, names, -⟩ := h.fits_of_parent? ha
  exact eq_of_nodup_keys names ((h.mem_childrenOf a d).mpr ha) ((h.mem_childrenOf b d).mpr hb)
    hi hj hij

theorem WellFormed.eq_of_entry (h : t.WellFormed P) {a b d : Nat} {i j : Item}
    (ha : t.parent? a = some d) (hb : t.parent? b = some d) (hi : t.item? a = some i)
    (hj : t.item? b = some j) (hij : i.entry = j.entry) : a = b := by
  obtain ⟨doc, -, -, entries, -⟩ := h.fits_of_parent? ha
  exact eq_of_nodup_keys entries ((h.mem_childrenOf a d).mpr ha) ((h.mem_childrenOf b d).mpr hb)
    hi hj hij

/-- Nodes of one tree with the same entries down to them are the same. -/
theorem WellFormed.eq_of_entriesTo (h : t.WellFormed P) {a b : Nat} (ha : a < t.size)
    (hroot : t.rootOf a = t.rootOf b) (hentries : t.entriesTo a = t.entriesTo b) : a = b :=
  h.eq_of_keysTo (fun _ _ _ _ _ hpa hpb hi hj => h.eq_of_entry hpa hpb hi hj) hroot hentries ha

/-! ## The index of a document -/

/-- What occurs once in a list is found there, and is the only one. -/
theorem exists_find?_of_countP_eq_one {q : Nat → Bool} {ids : List Nat} (h : ids.countP q = 1) :
    ∃ c, ids.find? q = some c ∧ c ∈ ids ∧ q c = true ∧ ∀ d ∈ ids, q d = true → d = c := by
  rw [List.countP_eq_length_filter] at h
  obtain ⟨c, hc⟩ := List.length_eq_one_iff.mp h
  have hm : c ∈ ids.filter q := by rw [hc]; exact .head _
  refine ⟨c, ?_, (List.mem_filter.mp hm).1, (List.mem_filter.mp hm).2, fun d hd hq => ?_⟩
  · rw [← List.head?_filter, hc]
    rfl
  · have hd : d ∈ ids.filter q := List.mem_filter.mpr ⟨hd, hq⟩
    rw [hc] at hd
    exact List.mem_singleton.mp hd

/-- A document has one index, and that is a page. -/
theorem WellFormed.exists_index (h : t.WellFormed P) {d : Nat} {doc : Document}
    (hd : t.item? d = some (.document doc)) :
    ∃ c p, t.indexOf? d = some c ∧ t.parent? c = some d ∧ t.item? c = some (.page p) ∧
      p.isIndex = true ∧
      ∀ b item, t.parent? b = some d → t.item? b = some item → item.isIndex = true → b = c := by
  obtain ⟨n, hn, -⟩ := Option.map_eq_some_iff.mp hd
  have hcount : t.countIndexes n.children = 1 := by
    rw [countIndexes_eq, ← childrenOf_of_get? hn]
    exact (h.fits d _ hd).2.2
  obtain ⟨c, hfind, hm, hq, honly⟩ := exists_find?_of_countP_eq_one hcount
  rw [← childrenOf_of_get? hn] at hm honly
  have hpc := (h.mem_childrenOf c d).mp hm
  obtain ⟨m, hc⟩ := exists_get? (lt_size_of_parent? hpc)
  rw [hc, Option.any_some] at hq
  obtain ⟨p, hpage⟩ : ∃ p, m.item = .page p := by
    cases hi : m.item with
    | page p => exact ⟨p, rfl⟩
    | document e => rw [TreeNode.isIndex, hi] at hq; cases hq
  refine ⟨c, p, ?_, hpc, ?_, ?_, fun b item hb hi hidx => ?_⟩
  · rw [indexOf?, hn, Option.bind_some]
    exact hfind
  · rw [item?_of_get? hc, hpage]
  · rw [TreeNode.isIndex, hpage] at hq
    exact hq
  · refine honly b ((h.mem_childrenOf b d).mpr hb) ?_
    obtain ⟨k, hk, hki⟩ := Option.map_eq_some_iff.mp hi
    rw [hk, Option.any_some, TreeNode.isIndex, hki]
    exact hidx

/-! ## Paths -/

theorem map_filterMap_get? (t : Tree) (key : Item → String) (ids : List Nat) :
    (ids.filterMap t.get?).map (fun n => key n.item) = (ids.filterMap t.item?).map key := by
  rw [List.map_filterMap, List.map_filterMap]
  refine List.filterMap_congr fun c _ => ?_
  rw [item?, Option.map_map]
  rfl

theorem WellFormed.ancestry_eq (h : t.WellFormed P) {id : Nat} (hid : id < t.size) :
    t.ancestry id = .ok ((t.climb id).reverse.filterMap t.get?) := by
  rw [ancestry, h.climb_eq hid]

theorem ancestry_of_unknown {id : Nat} (h : t.size ≤ id) :
    t.ancestry id = .error (.unknownNode id) := by rw [ancestry, climb_of_unknown h]

/-- The path of a node joins the names down to it. -/
theorem WellFormed.logicalPath_eq (h : t.WellFormed P) {id : Nat} (hid : id < t.size) :
    t.logicalPath id = .ok (pathOf (t.namesTo id)) := by
  rw [logicalPath, h.ancestry_eq hid, namesTo, keysTo, ← map_filterMap_get?]
  rfl

theorem WellFormed.entryPath_eq (h : t.WellFormed P) {id : Nat} (hid : id < t.size) :
    t.entryPath id = .ok (pathOf (t.entriesTo id)) := by
  rw [entryPath, h.ancestry_eq hid, entriesTo, keysTo, ← map_filterMap_get?]
  rfl

/-- The page that a node is, or that stands for it. -/
def pageOf? (t : Tree) (id : Nat) : Option Nat :=
  (t.item? id).bind fun item =>
    match item with
    | .page _ => some id
    | .document _ => t.indexOf? id

/-- Every node has a page in its tree, and its path on disk is the one of that page. -/
theorem WellFormed.physicalPath_eq (h : t.WellFormed P) {id : Nat} (hid : id < t.size) :
    ∃ c p, t.pageOf? id = some c ∧ t.item? c = some (.page p) ∧ t.rootOf c = t.rootOf id ∧
      t.physicalPath id = .ok (pathOf (t.entriesTo c)) := by
  obtain ⟨n, hn⟩ := exists_get? hid
  have hnode : t.node id = .ok n := by rw [node, hn]
  have hitem := item?_of_get? hn
  cases hi : n.item with
  | page p =>
      rw [hi] at hitem
      refine ⟨id, p, by rw [pageOf?, hitem]; rfl, hitem, rfl, ?_⟩
      rw [physicalPath, hnode]
      simp only [hi]
      exact h.entryPath_eq hid
  | document d =>
      rw [hi] at hitem
      obtain ⟨c, p, hindex, hpc, hc, -⟩ := h.exists_index hitem
      refine ⟨c, p, by rw [pageOf?, hitem]; exact hindex, hc, h.rootOf_of_parent? hpc, ?_⟩
      rw [physicalPath, hnode]
      simp only [hi, hindex]
      exact h.entryPath_eq (lt_size_of_parent? hpc)

/-- The path of a page on disk joins the entries down to it. -/
theorem WellFormed.physicalPath_of_page (h : t.WellFormed P) {c : Nat} {p : Page}
    (hc : t.item? c = some (.page p)) : t.physicalPath c = .ok (pathOf (t.entriesTo c)) := by
  obtain ⟨c', -, hc', -, -, hpath⟩ := h.physicalPath_eq (lt_size_of_item? hc)
  rw [pageOf?, hc] at hc'
  cases hc'
  exact hpath

/-! ## Segments of paths -/

theorem WellFormed.segmentsOf_namesTo (h : t.WellFormed P) {id : Nat} (hid : id < t.size) :
    segmentsOf (pathOf (t.namesTo id)) = t.namesTo id :=
  segmentsOf_pathOf (h.keysTo_ne_nil _ hid)
    (h.forall_keysTo (fun item _ => item.isNodeName_name.2.1) id)

theorem WellFormed.segmentsOf_entriesTo (h : t.WellFormed P) {id : Nat} (hid : id < t.size) :
    segmentsOf (pathOf (t.entriesTo id)) = t.entriesTo id :=
  segmentsOf_pathOf (h.keysTo_ne_nil _ hid)
    (h.forall_keysTo (fun item _ => item.isEntryName_entry.2) id)

/-! ## Following names -/

theorem descend?_append (t : Tree) (id : Nat) (xs ys : List String) :
    t.descend? id (xs ++ ys) = (t.descend? id xs).bind fun c => t.descend? c ys := by
  induction xs generalizing id with
  | nil => rfl
  | cons x xs ih =>
      rw [List.cons_append, descend?, descend?]
      cases t.child? id x with
      | none => rfl
      | some c => exact ih c

/-- The child of a document by its name. -/
theorem WellFormed.child?_eq_some_iff (h : t.WellFormed P) {c d : Nat} {name : String} :
    t.child? d name = some c ↔
      t.parent? c = some d ∧ ∃ item, t.item? c = some item ∧ item.name = name := by
  have named : ∀ e, (t.get? e).any (fun n => n.name == name) = true ↔
      ∃ item, t.item? e = some item ∧ item.name = name := by
    intro e
    cases he : t.get? e with
    | none => simp [item?, he]
    | some n => simp [item?, he]
  rw [child?]
  constructor
  · intro hc
    obtain ⟨n, hn, hfind⟩ := Option.bind_eq_some_iff.mp hc
    have hname := List.find?_some hfind
    refine ⟨?_, (named c).mp hname⟩
    rw [← h.mem_childrenOf, childrenOf_of_get? hn]
    exact List.mem_of_find?_eq_some hfind
  · rintro ⟨hp, item, hi, rfl⟩
    obtain ⟨n, hn⟩ := exists_get? (h.lt_size_of_isParent hp)
    have hm := (h.mem_childrenOf c d).mpr hp
    rw [childrenOf_of_get? hn] at hm
    rw [hn, Option.bind_some]
    cases hfind : n.children.find? fun e => (t.get? e).any fun m => m.name == item.name with
    | none =>
        have := List.find?_eq_none.mp hfind c hm
        exact absurd ((named c).mpr ⟨item, hi, rfl⟩) this
    | some e =>
        -- Siblings differ in name, so the first child of that name is `c`.
        have hname := List.find?_some hfind
        obtain ⟨j, hj, hij⟩ := (named e).mp hname
        have he := List.mem_of_find?_eq_some hfind
        rw [← childrenOf_of_get? hn, h.mem_childrenOf] at he
        rw [h.eq_of_name he hp hj hi hij]

/-- Following names leads to nodes of the same tree. -/
theorem WellFormed.of_descend?_eq_some (h : t.WellFormed P) {a b : Nat} {names : List String}
    (hab : t.descend? a names = some b) (ha : a < t.size) :
    b < t.size ∧ t.rootOf b = t.rootOf a ∧ t.namesTo b = t.namesTo a ++ names := by
  induction names generalizing a with
  | nil =>
      cases hab
      exact ⟨ha, rfl, (List.append_nil _).symm⟩
  | cons name names ih =>
      rw [descend?] at hab
      obtain ⟨c, hc, hcb⟩ := Option.bind_eq_some_iff.mp hab
      obtain ⟨hp, item, hi, rfl⟩ := h.child?_eq_some_iff.mp hc
      obtain ⟨hb, hroot, hnames⟩ := ih hcb (lt_size_of_parent? hp)
      refine ⟨hb, hroot.trans (h.rootOf_of_parent? hp), ?_⟩
      rw [hnames, namesTo, h.keysTo_of_parent? hi hp, List.append_assoc]
      rfl

/-- The names below the root of its tree lead to a node. -/
theorem WellFormed.exists_descend? (h : t.WellFormed P) {id : Nat} (hid : id < t.size) :
    ∃ r root names, t.rootOf id = .ok r ∧ t.item? r = some root ∧
      t.namesTo id = root.name :: names ∧ t.descend? r names = some id := by
  refine h.upward (motive := fun id => ∃ r root names, t.rootOf id = .ok r ∧
    t.item? r = some root ∧ t.namesTo id = root.name :: names ∧ t.descend? r names = some id)
    (fun r hr hp => ?_) (fun c d hp ih => ?_) id hid
  · obtain ⟨item, hi⟩ := exists_item? hr
    exact ⟨r, item, [], rootOf_of_root hr hp, hi, keysTo_of_root hi hp, rfl⟩
  · obtain ⟨r, root, names, hroot, hr, hnames, hd⟩ := ih
    obtain ⟨item, hi⟩ := exists_item? (lt_size_of_parent? hp)
    refine ⟨r, root, names ++ [item.name], (h.rootOf_of_parent? hp).trans hroot, hr, ?_, ?_⟩
    · rw [namesTo, h.keysTo_of_parent? hi hp, ← namesTo, hnames]
      rfl
    · have hc := h.child?_eq_some_iff.mpr ⟨hp, item, hi, rfl⟩
      rw [descend?_append, hd, Option.bind_some, descend?, hc]
      rfl

/-! ## Finding -/

theorem eq_of_find_eq_error {r : Nat} (hr : r < t.size) {path : String} {e : TreeError}
    (he : t.find r path = .error e) : e = .pathNotFound path := by
  obtain ⟨n, hn⟩ := exists_get? hr
  rw [find, node, hn] at he
  dsimp only at he
  split at he
  · exact (Except.error.inj he).symm
  · split at he
    · split at he
      · cases he
      · exact (Except.error.inj he).symm
    · exact (Except.error.inj he).symm

/-- Every node is found at its path from the root of its tree, and nothing else is found
there. -/
theorem WellFormed.find_eq_ok_iff (h : t.WellFormed P) {r id : Nat} (hr : r < t.size)
    (hroot : t.parent? r = none) {path : String} :
    t.find r path = .ok id ↔ t.rootOf id = .ok r ∧ t.logicalPath id = .ok path := by
  obtain ⟨n, hn⟩ := exists_get? hr
  have hitem := item?_of_get? hn
  rw [find, node, hn]
  dsimp only
  constructor
  · intro hf
    split at hf
    next => cases hf
    next name names hs =>
      split at hf
      next hname =>
        split at hf
        next c hd =>
          cases hf
          obtain ⟨hid, hsame, hnames⟩ := h.of_descend?_eq_some hd hr
          refine ⟨hsame.trans (rootOf_of_root hr hroot), ?_⟩
          rw [h.logicalPath_eq hid, hnames, namesTo, keysTo_of_root hitem hroot,
            ← pathOf_segmentsOf path, hs, hname]
          rfl
        next => cases hf
      next => cases hf
  · rintro ⟨hrid, hpath⟩
    have hid := lt_size_of_rootOf hrid
    obtain ⟨s, root, names, hs, hsitem, hnames, hd⟩ := h.exists_descend? hid
    cases hrid.symm.trans hs
    cases hitem.symm.trans hsitem
    rw [h.logicalPath_eq hid] at hpath
    cases hpath
    rw [h.segmentsOf_namesTo hid, hnames]
    simp only [if_true, hd]

end Tree

end PageLoom
