import PageLoom.Proofs.Tree.History

/-!
# Attaching children

A document is added above children, and the children are looked at in the order in which they are
listed.  `Tree.Fault` says what is wrong with a child that comes after others, and a document is
refused for the first child with a fault (`refusal?_eq_some_iff`), or else for the number of
indexes among its children.

So a document is added exactly if its children are `Tree.Attachable`.  Then nothing changes but the
parents of the children, and otherwise nothing changes at all (`addDocument_allOrNothing`).
-/

namespace PageLoom

namespace Tree

variable {t u : Tree} {document : String} {earlier children : List Nat} {c : Nat} {e : TreeError}

/-! ## Faults -/

/-- What is wrong with a child that is listed after others.  A fault is only found if there are none
of those that come before it here. -/
inductive Fault (t : Tree) (document : String) (earlier : List Nat) (c : Nat) : TreeError → Prop
  /-- It is not in the tree. -/
  | unknown (hc : t.item? c = none) : Fault t document earlier c (.unknownNode c)
  /-- It belongs to a document, or is listed before. -/
  | attached {item : Item} (hc : t.item? c = some item)
      (h : (∃ parent, t.parent? c = some parent) ∨ c ∈ earlier) :
      Fault t document earlier c (.attached item.name)
  /-- A child that is listed before has the same name. -/
  | name {item other : Item} {b : Nat} (hc : t.item? c = some item)
      (hfree : ¬ ((∃ parent, t.parent? c = some parent) ∨ c ∈ earlier))
      (hb : b ∈ earlier) (hother : t.item? b = some other) (h : other.name = item.name) :
      Fault t document earlier c (.duplicateName document item.name)
  /-- A child that is listed before is stored under the same name. -/
  | entry {item other : Item} {b : Nat} (hc : t.item? c = some item)
      (hfree : ¬ ((∃ parent, t.parent? c = some parent) ∨ c ∈ earlier))
      (hnames : ¬ ∃ b ∈ earlier, ∃ other, t.item? b = some other ∧ other.name = item.name)
      (hb : b ∈ earlier) (hother : t.item? b = some other) (h : other.entry = item.entry) :
      Fault t document earlier c (.duplicateFile document item.entry)

/-- None of the children that are listed after others has a fault. -/
def Faultless (t : Tree) (document : String) (earlier children : List Nat) : Prop :=
  ∀ front c rest, children = front ++ c :: rest → ∀ e, ¬ t.Fault document (earlier ++ front) c e

/-- The first of the children with a fault has the fault `e`. -/
def FirstFault (t : Tree) (document : String) (earlier children : List Nat) (e : TreeError) :
    Prop :=
  ∃ front c rest, children = front ++ c :: rest ∧ t.Faultless document earlier front ∧
    t.Fault document (earlier ++ front) c e

/-- `before` holds the children `earlier` with their nodes. -/
def Listed (t : Tree) (earlier : List Nat) (before : List (Nat × TreeNode)) : Prop :=
  ∀ b n, (b, n) ∈ before ↔ b ∈ earlier ∧ t.get? b = some n

namespace Listed

variable {before : List (Nat × TreeNode)}

theorem nil : t.Listed [] [] := fun b n => by simp

theorem concat (h : t.Listed earlier before) {n : TreeNode} (hc : t.get? c = some n) :
    t.Listed (earlier ++ [c]) ((c, n) :: before) := by
  intro b m
  rw [List.mem_cons, h b m, List.mem_append, List.mem_singleton, Prod.mk.injEq]
  constructor
  · rintro (⟨rfl, rfl⟩ | ⟨hb, hm⟩)
    · exact ⟨.inr rfl, hc⟩
    · exact ⟨.inl hb, hm⟩
  · rintro ⟨hb | rfl, hm⟩
    · exact .inr ⟨hb, hm⟩
    · cases hc.symm.trans hm
      exact .inl ⟨rfl, rfl⟩

/-- Whether a child belongs to a document or is listed before. -/
theorem attached_iff (h : t.Listed earlier before) {n : TreeNode} (hc : t.get? c = some n) :
    n.parent.isSome = true ∨ before.any (·.1 == c) = true ↔
      (∃ parent, t.parent? c = some parent) ∨ c ∈ earlier := by
  rw [parent?_of_get? hc, Option.isSome_iff_exists, List.any_eq_true]
  refine or_congr_right ⟨?_, fun hm => ?_⟩
  · rintro ⟨⟨b, m⟩, hb, heq⟩
    cases beq_iff_eq.mp heq
    exact ((h b m).mp hb).1
  · exact ⟨(c, n), (h c n).mpr ⟨hm, hc⟩, beq_self_eq_true c⟩

/-- The nodes that were checked before are asked for their keys, and only known nodes have one. -/
theorem any_key_iff (h : t.Listed earlier before) (key : Item → String) (text : String) :
    before.any (fun b => key b.2.item == text) = true ↔
      ∃ b ∈ earlier, ∃ other, t.item? b = some other ∧ key other = text := by
  rw [List.any_eq_true]
  constructor
  · rintro ⟨⟨b, m⟩, hb, heq⟩
    obtain ⟨hearlier, hm⟩ := (h b m).mp hb
    exact ⟨b, hearlier, m.item, item?_of_get? hm, beq_iff_eq.mp heq⟩
  · rintro ⟨b, hb, other, hother, heq⟩
    obtain ⟨m, hm, rfl⟩ := Option.map_eq_some_iff.mp hother
    exact ⟨(b, m), (h b m).mpr ⟨hb, hm⟩, beq_iff_eq.mpr heq⟩

/-- The fault of a child is what it is refused for. -/
theorem refusal?_of_fault (h : t.Listed earlier before) (hfault : t.Fault document earlier c e)
    (cs : List Nat) : t.refusal? document before (c :: cs) = some e := by
  rw [refusal?]
  cases hfault with
  | unknown hc => rw [Option.map_eq_none_iff.mp hc]
  | attached hc hattached =>
      obtain ⟨n, hn, rfl⟩ := Option.map_eq_some_iff.mp hc
      rw [hn]
      exact if_pos ((h.attached_iff hn).mpr hattached)
  | name hc hfree hb hother hname =>
      obtain ⟨n, hn, rfl⟩ := Option.map_eq_some_iff.mp hc
      rw [hn]
      dsimp only
      rw [if_neg (mt (h.attached_iff hn).mp hfree), if_pos]
      exact (h.any_key_iff Item.name _).mpr ⟨_, hb, _, hother, hname⟩
  | entry hc hfree hnames hb hother hentry =>
      obtain ⟨n, hn, rfl⟩ := Option.map_eq_some_iff.mp hc
      rw [hn]
      dsimp only
      rw [if_neg (mt (h.attached_iff hn).mp hfree),
        if_neg (mt (h.any_key_iff Item.name _).mp hnames), if_pos]
      exact (h.any_key_iff Item.entry _).mpr ⟨_, hb, _, hother, hentry⟩

/-- After a child without a fault, the others are looked at. -/
theorem refusal?_of_not_fault (h : t.Listed earlier before)
    (hnone : ∀ e, ¬ t.Fault document earlier c e) (cs : List Nat) :
    ∃ n, t.get? c = some n ∧
      t.refusal? document before (c :: cs) = t.refusal? document ((c, n) :: before) cs := by
  cases hn : t.get? c with
  | none => exact absurd (.unknown (by rw [item?, hn]; rfl)) (hnone _)
  | some n =>
      have hc := item?_of_get? hn
      have hfree : ¬ ((∃ parent, t.parent? c = some parent) ∨ c ∈ earlier) :=
        fun hattached => hnone _ (.attached hc hattached)
      have hnames : ¬ ∃ b ∈ earlier, ∃ other, t.item? b = some other ∧ other.name = n.name := by
        rintro ⟨b, hb, other, hother, hname⟩
        exact hnone _ (.name hc hfree hb hother hname)
      have hentries : ¬ ∃ b ∈ earlier, ∃ other, t.item? b = some other ∧ other.entry = n.entry := by
        rintro ⟨b, hb, other, hother, hentry⟩
        exact hnone _ (.entry hc hfree hnames hb hother hentry)
      refine ⟨n, rfl, ?_⟩
      rw [refusal?, hn]
      dsimp only
      rw [if_neg (mt (h.attached_iff hn).mp hfree),
        if_neg (mt (h.any_key_iff Item.name _).mp hnames),
        if_neg (mt (h.any_key_iff Item.entry _).mp hentries)]

end Listed

/-! ## The first fault -/

theorem faultless_nil : t.Faultless document earlier [] := fun front c rest h => by simp at h

theorem faultless_cons : t.Faultless document earlier (c :: children) ↔
    (∀ e, ¬ t.Fault document earlier c e) ∧ t.Faultless document (earlier ++ [c]) children := by
  constructor
  · intro h
    refine ⟨?_, fun front b rest hsplit => ?_⟩
    · have hfirst := h [] c children rfl
      rwa [List.append_nil] at hfirst
    · rw [List.append_assoc]
      exact h (c :: front) b rest (by rw [hsplit]; rfl)
  · rintro ⟨hfirst, h⟩ front b rest hsplit
    rcases List.cons_eq_append_iff.mp hsplit with ⟨rfl, hcons⟩ | ⟨front, rfl, hchildren⟩
    · cases hcons
      rwa [List.append_nil]
    · have hlater := h front b rest hchildren
      rwa [List.append_assoc] at hlater

theorem not_firstFault_nil : ¬ t.FirstFault document earlier [] e := by
  rintro ⟨front, c, rest, hsplit, -⟩
  simp at hsplit

/-- A fault of the first child is the first fault. -/
theorem FirstFault.head (h : t.Fault document earlier c e) :
    t.FirstFault document earlier (c :: children) e :=
  ⟨[], c, children, rfl, faultless_nil, by rwa [List.append_nil]⟩

/-- A faultless first child passes the question on to the others. -/
theorem firstFault_cons (hnone : ∀ e, ¬ t.Fault document earlier c e) :
    t.FirstFault document earlier (c :: children) e ↔
      t.FirstFault document (earlier ++ [c]) children e := by
  constructor
  · rintro ⟨front, b, rest, hsplit, hfront, hfault⟩
    rcases List.cons_eq_append_iff.mp hsplit with ⟨rfl, hcons⟩ | ⟨front, rfl, hchildren⟩
    · cases hcons
      rw [List.append_nil] at hfault
      exact absurd hfault (hnone e)
    · refine ⟨front, b, rest, hchildren, (faultless_cons.mp hfront).2, ?_⟩
      rwa [List.append_assoc]
  · rintro ⟨front, b, rest, rfl, hfront, hfault⟩
    refine ⟨c :: front, b, rest, rfl, faultless_cons.mpr ⟨hnone, hfront⟩, ?_⟩
    rwa [List.append_assoc] at hfault

/-- A document is not refused for any child if none of them has a fault. -/
theorem refusal?_eq_none_iff {before : List (Nat × TreeNode)} (h : t.Listed earlier before) :
    t.refusal? document before children = none ↔ t.Faultless document earlier children := by
  induction children generalizing earlier before with
  | nil => exact iff_of_true rfl faultless_nil
  | cons c cs ih =>
      rw [faultless_cons]
      by_cases hfault : ∃ e, t.Fault document earlier c e
      · obtain ⟨e, hfault⟩ := hfault
        rw [h.refusal?_of_fault hfault]
        exact iff_of_false (by simp) fun hnone => hnone.1 e hfault
      · rw [not_exists] at hfault
        obtain ⟨n, hn, hrest⟩ := h.refusal?_of_not_fault hfault cs
        rw [hrest, ih (h.concat hn)]
        exact (and_iff_right hfault).symm

/-- A document is refused for the first child with a fault. -/
theorem refusal?_eq_some_iff {before : List (Nat × TreeNode)} (h : t.Listed earlier before) :
    t.refusal? document before children = some e ↔ t.FirstFault document earlier children e := by
  induction children generalizing earlier before with
  | nil => exact iff_of_false (by simp [refusal?]) not_firstFault_nil
  | cons c cs ih =>
      by_cases hfault : ∃ e, t.Fault document earlier c e
      · obtain ⟨e', hfault⟩ := hfault
        rw [h.refusal?_of_fault hfault, Option.some_inj]
        constructor
        · rintro rfl
          exact .head hfault
        · rintro ⟨front, b, rest, hsplit, hfront, hfault'⟩
          rcases List.cons_eq_append_iff.mp hsplit with ⟨rfl, hcons⟩ | ⟨front, rfl, -⟩
          · cases hcons
            rw [List.append_nil] at hfault'
            have hsame := h.refusal?_of_fault hfault' cs
            rw [h.refusal?_of_fault hfault] at hsame
            exact Option.some.inj hsame
          · exact absurd hfault ((faultless_cons.mp hfront).1 e')
      · rw [not_exists] at hfault
        obtain ⟨n, hn, hrest⟩ := h.refusal?_of_not_fault hfault cs
        rw [hrest, ih (h.concat hn), firstFault_cons hfault]

/-! ## Children that fit -/

/-- Whether a node is a page that is an index. -/
def isIndexPage (t : Tree) (id : Nat) : Bool :=
  match t.item? id with
  | some (.page p) => p.isIndex
  | _ => false

theorem countIndexes_eq_countP (t : Tree) (ids : List Nat) :
    t.countIndexes ids = ids.countP t.isIndexPage := by
  refine List.countP_congr fun c _ => ?_
  rw [isIndexPage, item?]
  cases t.get? c with
  | none => rfl
  | some n =>
      rw [Option.any_some, Option.map_some, TreeNode.isIndex]
      cases n.item <;> rfl

/-- Nodes that a document can be added above. -/
structure Attachable (t : Tree) (children : List Nat) : Prop where
  known : ∀ c ∈ children, c < t.size
  free : ∀ c ∈ children, t.parent? c = none
  ids_differ : children.Nodup
  names_differ : ∀ a b i j, a ∈ children → b ∈ children → a ≠ b →
    t.item? a = some i → t.item? b = some j → i.name ≠ j.name
  entries_differ : ∀ a b i j, a ∈ children → b ∈ children → a ≠ b →
    t.item? a = some i → t.item? b = some j → i.entry ≠ j.entry
  one_index : children.countP t.isIndexPage = 1

/-- Children can have a document above them if none has a fault and one is an index. -/
theorem attachable_iff (document : String) : t.Attachable children ↔
    t.Faultless document [] children ∧ children.countP t.isIndexPage = 1 := by
  constructor
  · intro h
    refine ⟨?_, h.one_index⟩
    rintro front c rest rfl e hfault
    have hc : c ∈ front ++ c :: rest := by simp
    have hnew : c ∉ front := fun hm =>
      (List.nodup_append.mp h.ids_differ).2.2 c hm c (.head _) rfl
    have hne : ∀ b ∈ front, b ≠ c := fun b hb heq => hnew (heq ▸ hb)
    rw [List.nil_append] at hfault
    cases hfault with
    | unknown hunknown =>
        obtain ⟨item, hi⟩ := exists_item? (h.known c hc)
        cases hunknown.symm.trans hi
    | attached _ hattached =>
        rcases hattached with ⟨parent, hparent⟩ | hm
        · cases (h.free c hc).symm.trans hparent
        · exact hnew hm
    | name hi _ hb hj hname =>
        exact h.names_differ _ c _ _ (List.mem_append_left _ hb) hc (hne _ hb) hj hi hname
    | entry hi _ _ hb hj hentry =>
        exact h.entries_differ _ c _ _ (List.mem_append_left _ hb) hc (hne _ hb) hj hi hentry
  · rintro ⟨hfaultless, hindex⟩
    obtain ⟨hfree, hids, hnames, hentries⟩ :=
      of_refusal?_eq_none ((refusal?_eq_none_iff .nil).mpr hfaultless) .nil .nil .nil
    simp only [List.map_nil, List.append_nil] at hids hnames hentries
    exact {
      known := fun c hc => (hfree c hc).1
      free := fun c hc => (hfree c hc).2
      ids_differ := hids
      names_differ := fun a b i j ha hb hne hi hj heq =>
        hne (eq_of_nodup_keys hnames ha hb hi hj heq)
      entries_differ := fun a b i j ha hb hne hi hj heq =>
        hne (eq_of_nodup_keys hentries ha hb hi hj heq)
      one_index := hindex }

/-! ## Adding a document -/

/-- A document is refused for the first child with a fault, or else for the number of indexes. -/
theorem addDocument_eq_error_iff {d : Document} : t.addDocument d children = .error e ↔
    t.FirstFault d.name [] children e ∨
      t.Faultless d.name [] children ∧ children.countP t.isIndexPage ≠ 1 ∧
        e = .indexCount d.name (children.countP t.isIndexPage) := by
  rw [addDocument, ← refusal?_eq_some_iff .nil, ← refusal?_eq_none_iff .nil,
    countIndexes_eq_countP]
  cases t.refusal? d.name [] children with
  | some e' => simp
  | none =>
      by_cases hindex : children.countP t.isIndexPage = 1
      · simp [hindex]
      · simp [hindex, eq_comm]

/-- A document is added exactly when its children can be attached. -/
theorem exists_addDocument_iff {d : Document} :
    (∃ u, t.addDocument d children = .ok u) ↔ t.Attachable children := by
  rw [attachable_iff d.name, addDocument, ← refusal?_eq_none_iff .nil,
    countIndexes_eq_countP]
  cases t.refusal? d.name [] children with
  | some e' => simp
  | none =>
      by_cases hindex : children.countP t.isIndexPage = 1
      · simp [hindex]
      · simp [hindex]

/-- A tree with a document that has been added above children. -/
structure AddedAbove (t : Tree) (d : Document) (children : List Nat) (u : Tree) : Prop where
  size_eq : u.size = t.size + 1
  /-- The id of the document is the number of nodes that were there before. -/
  document : u.get? t.size = some { item := .document d, parent := none, children }
  /-- The children belong to the document, and are otherwise what they were. -/
  adopted : ∀ c ∈ children, ∃ n, t.get? c = some n ∧
    u.get? c = some { n with parent := some t.size }
  others : ∀ id, id < t.size → id ∉ children → u.get? id = t.get? id

theorem addedAbove_adopt {d : Document} (known : ∀ c ∈ children, c < t.size) :
    t.AddedAbove d children (t.adopt (.document d) children) where
  size_eq := size_adopt t _ children
  document := by rw [get?_adopt, if_pos rfl]
  adopted c hc := by
    obtain ⟨n, hn⟩ := exists_get? (known c hc)
    refine ⟨n, hn, ?_⟩
    rw [get?_adopt, if_neg (Nat.ne_of_lt (known c hc)), hn, Option.map_some, if_pos hc]
  others _ hid hm := get?_adopt_of_not_mem hid hm

/-- Adding a document does all that it is to do, or nothing. -/
structure AllOrNothing (t : Tree) (d : Document) (children : List Nat) : Prop where
  /-- It succeeds for children that fit. -/
  succeeds_iff : (∃ u, t.addDocument d children = .ok u) ↔ t.Attachable children
  added : ∀ u, t.addDocument d children = .ok u →
    t.AddedAbove d children u ∧ t.change (.document d children) = u
  /-- Otherwise the tree stays as it was. -/
  unchanged : ¬ t.Attachable children → t.change (.document d children) = t
  /-- It fails with the fault of the first child that has one, and with the number of indexes only
  if no child has a fault. -/
  fails_iff : ∀ e, t.addDocument d children = .error e ↔
    t.FirstFault d.name [] children e ∨
      t.Faultless d.name [] children ∧ children.countP t.isIndexPage ≠ 1 ∧
        e = .indexCount d.name (children.countP t.isIndexPage)

/-- Adding a document does all of its work or none. -/
theorem addDocument_allOrNothing (t : Tree) (d : Document) (children : List Nat) :
    t.AllOrNothing d children where
  succeeds_iff := exists_addDocument_iff
  added u hu := by
    obtain ⟨-, -, hadopt⟩ := of_addDocument_eq_ok hu
    refine ⟨?_, by rw [change, hu]⟩
    rw [hadopt]
    exact addedAbove_adopt (exists_addDocument_iff.mp ⟨u, hu⟩).known
  unchanged hnot := by
    rw [change]
    split
    next u hu => exact absurd (exists_addDocument_iff.mp ⟨u, hu⟩) hnot
    next => rfl
  fails_iff _ := addDocument_eq_error_iff

end Tree

end PageLoom
