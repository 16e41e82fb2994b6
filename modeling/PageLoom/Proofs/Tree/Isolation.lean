import PageLoom.Proofs.Tree.Files
import PageLoom.Proofs.Tree.History

/-!
# Pages do not see each other's content

What a page says of another page depends on where that page is, on its names and its title, and not
on its content: the template, the context and the resources.  Nothing that a link is made of reads
the content of any page (`link_withoutContent`), and `link` is all that the rendering of a page sees
of its tree (`take_congr`).

So the content of a page reaches no page but itself: rendering a page in two trees that differ in
the content of other pages does the same to every disk (`render_page_isolated`).
-/

namespace PageLoom

/-! ## Without content -/

/-- A page without its content: only its names, its title and whether it is an index are left. -/
def Page.withoutContent (p : Page) : Page :=
  { p with template := "", context := .empty, resources := [] }

/-- Pages that agree without their contents and have the same contents are the same page. -/
theorem Page.eq_of_withoutContent {p q : Page} (h : p.withoutContent = q.withoutContent)
    (htemplate : p.template = q.template) (hcontext : p.context = q.context)
    (hresources : p.resources = q.resources) : p = q := by
  cases p
  cases q
  cases htemplate
  cases hcontext
  cases hresources
  cases h
  rfl

namespace Item

/-- An item without its content. -/
def withoutContent : Item → Item
  | .page p => .page p.withoutContent
  | .document d => .document d

variable (item : Item)

@[simp] theorem name_withoutContent : item.withoutContent.name = item.name := by
  cases item <;> rfl

@[simp] theorem entry_withoutContent : item.withoutContent.entry = item.entry := by
  cases item <;> rfl

@[simp] theorem isIndex_withoutContent : item.withoutContent.isIndex = item.isIndex := by
  cases item <;> rfl

@[simp] theorem page?_withoutContent :
    item.withoutContent.page? = item.page?.map Page.withoutContent := by
  cases item <;> rfl

end Item

namespace TreeNode

/-- A node without the content of its item. -/
def withoutContent (n : TreeNode) : TreeNode := { n with item := n.item.withoutContent }

variable (n : TreeNode)

@[simp] theorem item_withoutContent : n.withoutContent.item = n.item.withoutContent := rfl

@[simp] theorem parent_withoutContent : n.withoutContent.parent = n.parent := rfl

@[simp] theorem children_withoutContent : n.withoutContent.children = n.children := rfl

@[simp] theorem name_withoutContent : n.withoutContent.name = n.name :=
  n.item.name_withoutContent

@[simp] theorem entry_withoutContent : n.withoutContent.entry = n.entry :=
  n.item.entry_withoutContent

@[simp] theorem isIndex_withoutContent : n.withoutContent.isIndex = n.isIndex :=
  n.item.isIndex_withoutContent

end TreeNode

namespace Tree

/-- A tree without the content of its pages. -/
def withoutContent (t : Tree) : Tree where
  nodes := t.nodes.map TreeNode.withoutContent

variable (t : Tree) (id : Nat)

/-! ## Looking at nodes -/

@[simp] theorem get?_withoutContent :
    t.withoutContent.get? id = (t.get? id).map TreeNode.withoutContent := List.getElem?_map

/-- Emptying a tree empties each item and moves none. -/
theorem item?_withoutContent :
    t.withoutContent.item? id = (t.item? id).map Item.withoutContent := by
  rw [item?, item?, get?_withoutContent, Option.map_map, Option.map_map]
  rfl

@[simp] theorem node_withoutContent :
    t.withoutContent.node id = (t.node id).map TreeNode.withoutContent := by
  rw [node, node, get?_withoutContent]
  cases t.get? id <;> rfl

@[simp] theorem indexOf?_withoutContent : t.withoutContent.indexOf? id = t.indexOf? id := by
  simp [indexOf?, Option.bind_map, Option.any_map, Function.comp_def]

@[simp] theorem child?_withoutContent (name : String) :
    t.withoutContent.child? id name = t.child? id name := by
  simp [child?, Option.bind_map, Option.any_map, Function.comp_def]

/-! ## Up and down -/

@[simp] theorem climb_withoutContent : t.withoutContent.climb id = t.climb id := by
  fun_induction t.climb id with
  | case1 id hn =>
      rw [climb]
      split
      next => rfl
      next n hn' => simp [hn] at hn'
  | case2 id n hn ih =>
      rw [climb]
      split
      next hn' => simp [hn] at hn'
      next m hm =>
        rw [get?_withoutContent, hn] at hm
        cases hm
        rw [n.parent_withoutContent]
        cases n.parent with
        | none => rfl
        | some p =>
            by_cases hlt : id < p
            · simp only [if_pos hlt, ih p hlt]
            · simp only [if_neg hlt]

@[simp] theorem rootOf_withoutContent : t.withoutContent.rootOf id = t.rootOf id := by
  rw [rootOf, rootOf, climb_withoutContent]

@[simp] theorem entryPath_withoutContent : t.withoutContent.entryPath id = t.entryPath id := by
  rw [entryPath, entryPath, ancestry, ancestry, climb_withoutContent]
  cases t.climb id with
  | nil => rfl
  | cons c cs =>
      refine congrArg (fun names => Except.ok (pathOf names)) ?_
      rw [List.map_filterMap, List.map_filterMap]
      refine List.filterMap_congr fun k _ => ?_
      rw [get?_withoutContent, Option.map_map]
      congr 1
      funext n
      exact n.entry_withoutContent

@[simp] theorem physicalPath_withoutContent :
    t.withoutContent.physicalPath id = t.physicalPath id := by
  rw [physicalPath, physicalPath, node_withoutContent]
  cases t.node id with
  | error e => rfl
  | ok n =>
      cases hn : n.item with
      | page p => simp [Except.map, hn, Item.withoutContent]
      | document d => simp [Except.map, hn, Item.withoutContent]

@[simp] theorem descend?_withoutContent (names : List String) :
    t.withoutContent.descend? id names = t.descend? id names := by
  induction names generalizing id with
  | nil => rfl
  | cons name names ih => simp only [descend?, child?_withoutContent, ih]

@[simp] theorem find_withoutContent (path : String) :
    t.withoutContent.find id path = t.find id path := by
  rw [find, find, node_withoutContent]
  cases t.node id with
  | error e => rfl
  | ok n => simp [Except.map]

/-! ## Links -/

/-- The page that stands for a document is there without its content. -/
theorem indexPage_withoutContent :
    ((t.indexOf? id).bind t.withoutContent.get?).bind (·.item.page?) =
      (((t.indexOf? id).bind t.get?).bind (·.item.page?)).map Page.withoutContent := by
  cases t.indexOf? id with
  | none => rfl
  | some i =>
      rw [Option.bind_some, Option.bind_some, get?_withoutContent]
      cases t.get? i with
      | none => rfl
      | some n => exact n.item.page?_withoutContent

/-- Where a link leads does not depend on what any page contains. -/
theorem linkTarget_withoutContent (path : String) :
    t.withoutContent.linkTarget id path = t.linkTarget id path := by
  simp only [linkTarget, rootOf_withoutContent, find_withoutContent, physicalPath_withoutContent]

/-- The text of a link does not depend on what any page contains, a missing page included. -/
theorem linkText_withoutContent (path : String) :
    t.withoutContent.linkText id path = t.linkText id path := by
  rw [linkText, linkText, rootOf_withoutContent]
  cases t.rootOf id with
  | error e => rfl
  | ok root =>
      simp only [bind, Except.bind, find_withoutContent]
      cases t.find root path with
      | error e => rfl
      | ok target =>
          simp only [node_withoutContent, indexOf?_withoutContent]
          cases t.node target with
          | error e => rfl
          | ok n =>
              simp only [Except.map, TreeNode.item_withoutContent, TreeNode.name_withoutContent]
              cases n.item with
              | page p => rfl
              | document d =>
                  simp only [Item.withoutContent, indexPage_withoutContent]
                  cases ((t.indexOf? target).bind t.get?).bind (·.item.page?) <;> rfl

/-- What a link is made of does not depend on the content of pages. -/
theorem link_withoutContent : t.withoutContent.link id = t.link id := by
  funext args
  simp only [link, linkTarget_withoutContent, linkText_withoutContent]

/-! ## Rendering -/

variable {t} {u : Tree}

/-- A page is made alike in trees in which it has the same links. -/
theorem take_congr {id : Nat} (h : t.link id = u.link id) (o : RenderOptions) (fresh : Fresh)
    (path : Path) (p : Page) :
    t.take o fresh (.page path id p) = u.take o fresh (.page path id p) := by
  simp only [take, pageNode, article, h]

/-- To render a page is to make it in its folder. -/
theorem render_of_page {id : Nat} {p : Page} (hp : t.item? id = some (.page p)) (o : RenderOptions)
    (fresh : Fresh) (base : Path) (d : Disk) : t.render o fresh id base d =
      t.takeAll o fresh [.page (base.join p.file) id p] d := by
  obtain ⟨n, hn, hitem⟩ := Option.map_eq_some_iff.mp hp
  have hb : ∃ branches, t.branch? id = some ⟨id, .page p, branches⟩ := by
    rw [branch?, hn, ← hitem]
    exact ⟨_, rfl⟩
  obtain ⟨branches, hb⟩ := hb
  rw [render_eq hb, Branch.steps]

/-- Two trees that are alike but for the content of pages have the same page at an id, if the page
has the same content in both. -/
theorem eq_of_withoutContent_eq {id : Nat} {p q : Page} (h : t.withoutContent = u.withoutContent)
    (hp : t.item? id = some (.page p)) (hq : u.item? id = some (.page q))
    (htemplate : p.template = q.template) (hcontext : p.context = q.context)
    (hresources : p.resources = q.resources) : p = q := by
  have hitem := t.item?_withoutContent id
  rw [h, u.item?_withoutContent, hp, hq] at hitem
  have hsame : q.withoutContent = p.withoutContent := Item.page.inj (Option.some.inj hitem)
  exact Page.eq_of_withoutContent hsame.symm htemplate hcontext hresources

/-- A page is rendered alike in two trees that differ at most in the content of other pages: with
the same result, or the same failed calls, and the same files. -/
theorem render_page_isolated {id : Nat} {p q : Page} (h : t.withoutContent = u.withoutContent)
    (hp : t.item? id = some (.page p)) (hq : u.item? id = some (.page q))
    (htemplate : p.template = q.template) (hcontext : p.context = q.context)
    (hresources : p.resources = q.resources) (o : RenderOptions) (fresh : Fresh) (base : Path)
    (d : Disk) : t.render o fresh id base d = u.render o fresh id base d := by
  cases eq_of_withoutContent_eq h hp hq htemplate hcontext hresources
  have hlink : t.link id = u.link id := by
    rw [← link_withoutContent, h, link_withoutContent]
  rw [render_of_page hp, render_of_page hq, takeAll, takeAll, take_congr hlink]
  rfl

/-- A page with a link to another one, of which only the names and the title matter. -/
theorem render_page_isolated_link : ∃ index page other root,
    Page.ofName? "index" "%$ link(to = 'main/p1') $%" = .ok index ∧
    Page.ofName? "p1" "# One" = .ok page ∧ Page.ofName? "p1" "%$ broken" = .ok other ∧
    Document.ofName? "main" = .ok root ∧
    let t := make [.page index, .page page, .document root [0, 1]]
    let u := make [.page index, .page { other with resources := ["x.js"] }, .document root [0, 1]]
    let o : RenderOptions := ⟨.empty, .standard, false, "en", none, []⟩
    t.withoutContent = u.withoutContent ∧
    (t.render o (Fresh.ofSeed 7) 0 ⟨"out"⟩ {}).1.toOption = some 1 ∧
    t.render o (Fresh.ofSeed 7) 0 ⟨"out"⟩ {} = u.render o (Fresh.ofSeed 7) 0 ⟨"out"⟩ {} :=
  ⟨_, _, _, _, rfl, rfl, rfl, rfl, rfl, by decide +kernel,
    render_page_isolated (by rfl) (by rfl) (by rfl) (by rfl) (by rfl) (by rfl) _ _ _ _⟩

end Tree

end PageLoom
