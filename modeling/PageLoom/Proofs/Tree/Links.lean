import PageLoom.Proofs.Tree.Files
import PageLoom.Proofs.Tree.History
import PageLoom.Proofs.Tree.Relative

/-!
# Links in a tree

In every tree that is made of pages and documents as they are constructed, a path
from a node to another one of its tree is found, and the reference leads to the page
of that node: on paths, and on the disk after the tree has been rendered
(`linksLive_make`).
-/

namespace PageLoom

namespace Tree

variable {P : Item → Prop} {t : Tree}

/-! ## The way from page to page -/

/-- What the entries down to a node start with belongs to a node above it. -/
theorem WellFormed.exists_of_prefix (h : t.WellFormed P) {id : Nat} (hid : id < t.size) :
    ∀ entries, entries <+: t.entriesTo id → entries ≠ [] → entries ≠ t.entriesTo id →
      ∃ d doc, t.item? d = some (.document doc) ∧ t.rootOf d = t.rootOf id ∧
        t.entriesTo d = entries := by
  refine h.upward (motive := fun id => ∀ entries, entries <+: t.entriesTo id → entries ≠ [] →
    entries ≠ t.entriesTo id → ∃ d doc, t.item? d = some (.document doc) ∧
      t.rootOf d = t.rootOf id ∧ t.entriesTo d = entries)
    (fun r hr hp entries hpre hne hproper => ?_)
    (fun c d hp ih entries hpre hne hproper => ?_) id hid
  · obtain ⟨item, hi⟩ := exists_item? hr
    have hroot : t.entriesTo r = [] ++ [item.entry] := keysTo_of_root hi hp
    rw [hroot, List.prefix_concat_iff] at hpre
    rcases hpre with he | hnil
    · exact absurd (he.trans hroot.symm) hproper
    · exact absurd (List.prefix_nil.mp hnil) hne
  · obtain ⟨item, hi⟩ := exists_item? (lt_size_of_parent? hp)
    have hchild : t.entriesTo c = t.entriesTo d ++ [item.entry] := h.keysTo_of_parent? hi hp
    rw [hchild, List.prefix_concat_iff] at hpre
    rw [h.rootOf_of_parent? hp]
    rcases hpre with he | hpre
    · exact absurd (he.trans hchild.symm) hproper
    · by_cases hwhole : entries = t.entriesTo d
      · obtain ⟨doc, hd, -⟩ := h.fits_of_parent? hp
        exact ⟨d, doc, hd, rfl, hwhole.symm⟩
      · exact ih entries hpre hne hwhole

/-- No page is a folder on the way to another one. -/
theorem WellFormed.not_prefix_of_page (h : t.WellFormed P) {a b : Nat} {p : Page}
    (ha : a < t.size) (hb : t.item? b = some (.page p)) (hroot : t.rootOf b = t.rootOf a) :
    ¬ t.entriesTo b <+: (t.entriesTo a).dropLast := by
  intro hpre
  have hproper : t.entriesTo b ≠ t.entriesTo a := fun he => by
    have hlen := hpre.length_le
    have hpos := List.length_pos_iff.mpr (h.keysTo_ne_nil Item.entry ha)
    rw [he, List.length_dropLast] at hlen
    exact absurd hlen (Nat.not_le.mpr (Nat.sub_lt hpos Nat.one_pos))
  obtain ⟨d, doc, hd, hsame, hentries⟩ := h.exists_of_prefix ha _
    (hpre.trans (List.dropLast_prefix _)) (h.keysTo_ne_nil _ (lt_size_of_item? hb)) hproper
  cases h.eq_of_entriesTo (lt_size_of_item? hd) (hsame.trans hroot.symm) hentries
  cases hd.symm.trans hb

/-- The href from one page of a tree to another one. -/
def href (t : Tree) (a b : Nat) : String :=
  relativePath (pathOf (t.entriesTo a)) (pathOf (t.entriesTo b))

theorem href_self (t : Tree) (a : Nat) : t.href a a = "" := by rw [href, relativePath, if_pos rfl]

/-- The href to another page has the segments of the way there. -/
theorem WellFormed.href_of_ne (h : t.WellFormed P) {a b : Nat} {p : Page} (hne : a ≠ b)
    (ha : a < t.size) (hb : t.item? b = some (.page p)) (hroot : t.rootOf b = t.rootOf a) :
    t.href a b ≠ "" ∧
      segmentsOf (t.href a b) = relativeSegments (t.entriesTo a).dropLast (t.entriesTo b) := by
  have hbk := lt_size_of_item? hb
  have hsource := h.segmentsOf_entriesTo ha
  have htarget := h.segmentsOf_entriesTo hbk
  have hpaths : pathOf (t.entriesTo a) ≠ pathOf (t.entriesTo b) := fun he => by
    have hentries := congrArg segmentsOf he
    rw [hsource, htarget] at hentries
    exact hne (h.eq_of_entriesTo ha hroot.symm hentries)
  have hway := relativePath_of_ne hpaths (by rw [htarget]; exact h.isEntryName_entriesTo b)
    (by rw [folderOf, hsource, htarget]; exact h.not_prefix_of_page ha hb hroot)
  rwa [folderOf, hsource, htarget] at hway

theorem WellFormed.href_eq_empty_iff (h : t.WellFormed P) {a b : Nat} {p : Page}
    (ha : a < t.size) (hb : t.item? b = some (.page p)) (hroot : t.rootOf b = t.rootOf a) :
    t.href a b = "" ↔ a = b := by
  constructor
  · intro he
    by_contra hne
    exact (h.href_of_ne hne ha hb hroot).1 he
  · rintro rfl
    exact href_self t a

/-- The href leads from page to page, with the folder of the root or without it. -/
theorem WellFormed.followed_href (h : t.WellFormed P)
    (hP : ∀ item, P item → IsPlainEntry item.entry) {a b : Nat} {p q : Page}
    (ha : t.item? a = some (.page q)) (hb : t.item? b = some (.page p))
    (hroot : t.rootOf b = t.rootOf a) {k : Nat} (hk : k ≤ 1) :
    followHref? ((t.entriesTo a).drop k) (t.href a b) = some ((t.entriesTo b).drop k) := by
  have hak := lt_size_of_item? ha
  by_cases hab : a = b
  · subst hab
    rw [href_self, followHref?, if_pos rfl]
  · obtain ⟨hne, hsegments⟩ := h.href_of_ne hab hak hb hroot
    rw [followHref?, if_neg hne, hsegments]
    -- Different pages are below a document, so both ways down start in its folder.
    obtain ⟨r, hr, -⟩ := h.exists_rootOf hak
    obtain ⟨item, hi⟩ := exists_item? (h.root_of_rootOf hr).1
    obtain ⟨front, (hfront : t.entriesTo a = item.entry :: front), hfnil⟩ :=
      h.exists_keysTo_eq_cons Item.entry hr hi
    obtain ⟨rest, (hrest : t.entriesTo b = item.entry :: rest), -⟩ :=
      h.exists_keysTo_eq_cons Item.entry (hroot.trans hr) hi
    have hfne : front ≠ [] := fun hnil => by
      have hpa := hfnil.mp hnil
      cases hpb : t.parent? b with
      | none =>
          rw [rootOf_of_root hak hpa, rootOf_of_root (lt_size_of_item? hb) hpb] at hroot
          exact hab (Except.ok.inj hroot).symm
      | some d =>
          rw [rootOf_of_root hak hpa] at hroot
          obtain ⟨doc, hdoc⟩ := h.root_is_document hpb hroot
          cases ha.symm.trans hdoc
    have hshared : 1 ≤ sharedCount (t.entriesTo a).dropLast (t.entriesTo b) := by
      rw [hfront, hrest, List.dropLast_cons_of_ne_nil hfne, sharedCount, if_pos rfl]
      exact Nat.le_add_left _ _
    rw [List.dropLast_drop_eq_drop_dropLast]
    exact followed_relativeSegments (Nat.one_le_iff_ne_zero.mp hshared) (hk.trans hshared)
      (h.forall_keysTo hP b)

/-! ## Links -/

/-- What is said of the href from one node to another: `a` and `b` are the paths of
their pages. -/
structure Leads (t : Tree) (source target : Nat) (href a b : String) : Prop where
  source_path : t.physicalPath source = .ok a
  target_path : t.physicalPath target = .ok b
  /-- The href leads from page to page. -/
  followed : followHref? (segmentsOf a) href = some (segmentsOf b)
  /-- It is empty on the page that it leads to, and nowhere else. -/
  empty_iff : href = "" ↔ t.pageOf? source = t.pageOf? target
  /-- The page has its file after the root has been rendered. -/
  rendered : ∀ o fresh r base d n d', t.rootOf source = .ok r →
    t.render o fresh r base d = (.ok n, d') → d'.hasFile (base.join b) = true
  /-- Below a root document the href leads to the page without the folder of the root,
  and there the page has its file after the root has been rendered into a folder. -/
  below_root : ∀ r root, t.rootOf source = .ok r → t.item? r = some (.document root) →
    ∃ x y, segmentsOf a = root.folder :: x ∧ segmentsOf b = root.folder :: y ∧
      followHref? x href = some y ∧
      ∀ o fresh dir d n d', t.renderInto o fresh r dir d = (.ok n, d') →
        d'.hasFile (dir.join (pathOf y)) = true

theorem WellFormed.leads_href (h : t.WellFormed P)
    (hP : ∀ item, P item → IsPlainEntry item.entry) {source target a b : Nat} {p q : Page}
    (hroot : t.rootOf target = t.rootOf source) (ha : t.pageOf? source = some a)
    (hq : t.item? a = some (.page q)) (hra : t.rootOf a = t.rootOf source)
    (hpa : t.physicalPath source = .ok (pathOf (t.entriesTo a))) (hb : t.pageOf? target = some b)
    (hp : t.item? b = some (.page p)) (hrb : t.rootOf b = t.rootOf target)
    (hpb : t.physicalPath target = .ok (pathOf (t.entriesTo b))) :
    t.Leads source target (t.href a b) (pathOf (t.entriesTo a)) (pathOf (t.entriesTo b)) := by
  have hak := lt_size_of_item? hq
  have hbk := lt_size_of_item? hp
  have hab : t.rootOf b = t.rootOf a := hrb.trans (hroot.trans hra.symm)
  constructor
  case source_path => exact hpa
  case target_path => exact hpb
  case followed =>
    rw [h.segmentsOf_entriesTo hak, h.segmentsOf_entriesTo hbk]
    have hfollowed := h.followed_href hP hq hp hab (Nat.zero_le 1)
    rwa [List.drop_zero, List.drop_zero] at hfollowed
  case empty_iff => rw [h.href_eq_empty_iff hak hp hab, ha, hb, Option.some_inj]
  case rendered =>
    intro o fresh r base d n d' hr hdone
    exact h.hasFile_of_render hp (hrb.trans (hroot.trans hr)) hdone
  case below_root =>
    intro r root hr hi
    obtain ⟨x, (hx : t.entriesTo a = root.folder :: x), -⟩ :=
      h.exists_keysTo_eq_cons Item.entry (hra.trans hr) hi
    obtain ⟨y, (hy : t.entriesTo b = root.folder :: y), -⟩ :=
      h.exists_keysTo_eq_cons Item.entry (hrb.trans (hroot.trans hr)) hi
    have hfollowed := h.followed_href hP hq hp hab (Nat.le_refl 1)
    rw [hx, hy] at hfollowed
    refine ⟨x, y, (h.segmentsOf_entriesTo hak).trans hx, (h.segmentsOf_entriesTo hbk).trans hy,
      hfollowed, fun o fresh dir d n d' hdone => ?_⟩
    have hfile := h.hasFile_of_renderInto hi hp (hrb.trans (hroot.trans hr)) hdone
    rwa [hy] at hfile

/-- The link to a node of the same tree. -/
theorem WellFormed.linkTarget_eq_ok (h : t.WellFormed P)
    (hP : ∀ item, P item → IsPlainEntry item.entry) {source target : Nat} {path : String}
    (hs : source < t.size) (hroot : t.rootOf target = t.rootOf source)
    (hpath : t.logicalPath target = .ok path) :
    ∃ href a b, t.linkTarget source path = .ok href ∧ t.Leads source target href a b := by
  obtain ⟨r, hr, hrk, hrp⟩ := h.exists_rootOf hs
  have ht := lt_size_of_rootOf (hroot.trans hr)
  obtain ⟨a, q, ha, hq, hra, hpa⟩ := h.physicalPath_eq hs
  obtain ⟨b, p, hb, hp, hrb, hpb⟩ := h.physicalPath_eq ht
  refine ⟨t.href a b, _, _, ?_, h.leads_href hP hroot ha hq hra hpa hb hp hrb hpb⟩
  have hfind := (h.find_eq_ok_iff hrk hrp).mpr ⟨hroot.trans hr, hpath⟩
  rw [linkTarget, hr]
  simp only [hfind, hpa, hpb]
  rfl

/-- A path that no node of the tree has is not found. -/
theorem WellFormed.linkTarget_eq_error (h : t.WellFormed P) {source : Nat} {path : String}
    (hs : source < t.size)
    (hnone : ¬ ∃ target, t.rootOf target = t.rootOf source ∧ t.logicalPath target = .ok path) :
    t.linkTarget source path = .error (.pathNotFound path) := by
  obtain ⟨r, hr, hrk, hrp⟩ := h.exists_rootOf hs
  rw [linkTarget, hr]
  cases hfind : t.find r path with
  | error e => simp only [hfind, eq_of_find_eq_error hrk hfind]
  | ok target =>
      obtain ⟨hroot, hpath⟩ := (h.find_eq_ok_iff hrk hrp).mp hfind
      exact absurd ⟨target, hroot.trans hr.symm, hpath⟩ hnone

/-- No link from a node is dead: links lead to the nodes of its tree, and other paths
are not found. -/
structure LinksLive (t : Tree) (source : Nat) : Prop where
  found_iff : ∀ path, (∃ href, t.linkTarget source path = .ok href) ↔
    ∃ target, t.rootOf target = t.rootOf source ∧ t.logicalPath target = .ok path
  not_found : ∀ path,
    (¬ ∃ target, t.rootOf target = t.rootOf source ∧ t.logicalPath target = .ok path) →
    t.linkTarget source path = .error (.pathNotFound path)
  leads : ∀ target path href, t.rootOf target = t.rootOf source →
    t.logicalPath target = .ok path → t.linkTarget source path = .ok href →
    ∃ a b, t.Leads source target href a b

theorem WellFormed.linksLive (h : t.WellFormed P)
    (hP : ∀ item, P item → IsPlainEntry item.entry) {source : Nat} (hs : source < t.size) :
    t.LinksLive source where
  found_iff path := by
    constructor
    · rintro ⟨href, hhref⟩
      by_contra hnone
      cases hhref.symm.trans (h.linkTarget_eq_error hs hnone)
    · rintro ⟨target, hroot, hpath⟩
      obtain ⟨href, -, -, hhref, -⟩ := h.linkTarget_eq_ok hP hs hroot hpath
      exact ⟨href, hhref⟩
  not_found _ hnone := h.linkTarget_eq_error hs hnone
  leads target path href hroot hpath hhref := by
    obtain ⟨href', a, b, hhref', hleads⟩ := h.linkTarget_eq_ok hP hs hroot hpath
    cases hhref.symm.trans hhref'
    exact ⟨a, b, hleads⟩

/-- Links are never dead in a tree of pages and documents as they are constructed. -/
theorem linksLive_make {changes : List Change} (h : ∀ c ∈ changes, c.Constructed) {source : Nat}
    (hs : source < (make changes).size) : (make changes).LinksLive source :=
  (wellFormed_make fun c hc => (h c hc).adds).linksLive (fun _ hplain => hplain) hs

/-- A page and an index in a folder, below a document with an index of its own. -/
theorem linksLive_make_nested : ∃ page index folder root,
    Page.ofName? "p1" "" = .ok page ∧ Page.ofName? "index" "" = .ok index ∧
    Document.ofName? "d1" = .ok folder ∧ Document.ofName? "main" = .ok root ∧
    (make [.page page, .page index, .document folder [0, 1], .page index,
      .document root [3, 2]]).size = 5 ∧
    (make [.page page, .page index, .document folder [0, 1], .page index,
      .document root [3, 2]]).LinksLive 0 := by
  refine ⟨_, _, _, _, rfl, rfl, rfl, rfl, rfl, linksLive_make ?_ (by decide)⟩
  intro c hc
  simp only [List.mem_cons, List.not_mem_nil, or_false] at hc
  rcases hc with rfl | rfl | rfl | rfl | rfl
  · exact @Page.Made.ofName "p1" "" _ rfl
  · exact @Page.Made.ofName "index" "" _ rfl
  · exact ⟨@Document.Made.ofName "d1" _ rfl, by decide, by decide⟩
  · exact @Page.Made.ofName "index" "" _ rfl
  · exact ⟨@Document.Made.ofName "main" _ rfl, by decide, by decide⟩

end Tree

end PageLoom
