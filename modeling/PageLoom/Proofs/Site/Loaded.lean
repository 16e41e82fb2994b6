import PageLoom.Proofs.Site.Collects
import PageLoom.Proofs.Site.Copies
import PageLoom.Proofs.Span.Callees
import PageLoom.Proofs.Tree.Failing
import PageLoom.Site.Single

/-!
# Pages as they are loaded

What holds of the page of every file holds of every page that is collected
(`wellFormed_collectSite`).  So all of them have the title of their first heading and no resources
of their own (`IsLoaded`).

A site and the rendering of one article each put a page together, and what either page says is
stated in the same words (`Tree.markup_pageNode`, `markup_singlePage`).  If the page is loaded from
a file, the site has no title and the article makes no links, the two give the same
(`renderSingle_eq`).  A page renders unless calls of it fail, and then it fails with all of them
(`render_pageNode_of_failures`).
-/

namespace PageLoom

/-! ## Collecting -/

section

variable {P : Item → Prop} {site : Context}

theorem Collected.wellFormed_addDocument {c c' : Collected} {d : Document} {dir : Path}
    {children : List Nat} {id : Option Nat} (hdocument : ∀ d, P (.document d))
    (hc : c.tree.WellFormed P) (h : c.addDocument d dir children = .ok (c', id)) :
    c'.tree.WellFormed P := by
  rw [Collected.addDocument] at h
  split at h
  next =>
    cases h
    exact hc
  next =>
    split at h
    next t ht =>
      cases h
      exact hc.addDocument ht (hdocument d)
    next => cases h

variable (hdocument : ∀ d, P (.document d))
  (hpage : ∀ {dir siblings name bytes p}, pageOfFile site dir siblings name bytes = .ok p →
    P (.page p))

include hdocument hpage

/-- Collecting adds no items but documents and the pages of files. -/
theorem wellFormed_collectEntries {entries : List (String × Entry)} :
    ∀ {dir out : Path} {siblings : List (String × Entry)} {c c' : Collected} {ids : List Nat},
      c.tree.WellFormed P → collectEntries site dir out siblings c entries = .ok (c', ids) →
      c'.tree.WellFormed P := by
  induction entries using entries_induction with
  | nil =>
      intro dir out siblings c c' ids hc h
      rw [collectEntries] at h
      cases h
      exact hc
  | file name bytes rest ih =>
      intro dir out siblings c c' ids hc h
      rw [collectEntries] at h
      split at h
      next => exact ih hc h
      next =>
        split at h
        next =>
          obtain ⟨p, hp, h⟩ := bind_eq_ok_iff.mp h
          obtain ⟨⟨c₁, ids₁⟩, hrest, h⟩ := bind_eq_ok_iff.mp h
          cases h
          exact ih (c := c.addPage p) (hc.addPage (hpage hp)) hrest
        next =>
          split at h
          next => exact ih hc h
          next => exact ih (c := c.addCopy _ _) hc h
  | folder name inside rest ihInside ih =>
      intro dir out siblings c c' ids hc h
      rw [collectEntries] at h
      split at h
      next => exact ih hc h
      next =>
        obtain ⟨d, -, h⟩ := bind_eq_ok_iff.mp h
        obtain ⟨⟨c₁, below⟩, hinside, h⟩ := bind_eq_ok_iff.mp h
        obtain ⟨⟨c₂, id⟩, hadded, h⟩ := bind_eq_ok_iff.mp h
        obtain ⟨⟨c₃, ids₁⟩, hrest, h⟩ := bind_eq_ok_iff.mp h
        cases h
        exact ih (Collected.wellFormed_addDocument hdocument (ihInside hc hinside) hadded) hrest

theorem wellFormed_collectSite {content out : Path} {name : String}
    {listed : Except DiskError (List (String × Entry))} {c : Collected} {root : Nat}
    (h : collectSite site content out name listed = .ok (c, root)) : c.tree.WellFormed P := by
  obtain ⟨d, -, h⟩ := bind_eq_ok_iff.mp h
  obtain ⟨entries, -, h⟩ := bind_eq_ok_iff.mp h
  obtain ⟨⟨c₁, ids⟩, hentries, h⟩ := bind_eq_ok_iff.mp h
  obtain ⟨⟨c₂, id⟩, hadded, h⟩ := bind_eq_ok_iff.mp h
  cases id with
  | none => cases h
  | some r =>
      cases h
      exact Collected.wellFormed_addDocument hdocument
        (wellFormed_collectEntries hdocument hpage .empty hentries) hadded

end

/-! ## Loaded pages -/

namespace Page

/-- A page has the title of its first heading, and no resources of its own. -/
structure IsLoaded (p : Page) : Prop where
  title : p.title = headingTitle? p.template
  resources : p.resources = []

theorem isLoaded_pageOfFile {site : Context} {dir : Path} {siblings : List (String × Entry)}
    {name : String} {bytes : ByteArray} {p : Page}
    (h : pageOfFile site dir siblings name bytes = .ok p) : p.IsLoaded := by
  obtain ⟨template, -, h⟩ := bind_eq_ok_iff.mp h
  obtain ⟨context, -, h⟩ := bind_eq_ok_iff.mp h
  obtain ⟨q, hq, h⟩ := bind_eq_ok_iff.mp h
  cases h
  rw [mapError_eq_ok_iff, Page.ofName?] at hq
  split at hq
  next =>
    cases hq
    exact ⟨rfl, rfl⟩
  next => cases hq

end Page

/-- Every page that is collected is loaded from a file. -/
theorem isLoaded_of_collect {c : Config} {d : Disk} {site : Collected} {root id : Nat} {p : Page}
    (h : c.collect d = .ok (site, root)) (hp : site.tree.item? id = some (.page p)) :
    p.IsLoaded := by
  obtain ⟨context, -, h⟩ := bind_eq_ok_iff.mp h
  exact (wellFormed_collectSite (P := fun item => ∀ p, item = .page p → p.IsLoaded)
    (fun _ _ he => nomatch he) (fun hpage _ he => by
      cases he
      exact Page.isLoaded_pageOfFile hpage) h).items id _ hp p rfl

/-! ## One article -/

/-- Without a title of the site, a loaded page has the title of its article. -/
theorem fullTitle_eq_articleTitle {p : Page} (hp : p.IsLoaded) {file : Path}
    (hstem : file.stem? = some p.name) : p.fullTitle none = articleTitle file p.template := by
  rw [Page.fullTitle, articleTitle, hp.title, hstem]
  rfl

/-- A page without links renders as it would without the function for them. -/
theorem render_pageNode {t : Tree} {o : RenderOptions} {id : Nat} {p : Page}
    (hlink : ¬ Calls o.markers p.template "link") (fresh : Fresh) :
    (t.pageNode o id p).render fresh =
      (articlePage { t.article o id p with functions := o.functions } (p.fullTitle o.siteTitle)
        o.language o.head).render fresh := by
  have harticle := Article.render_register (a := { t.article o id p with functions := o.functions })
    hlink (fun _ args => t.link id args) ((fresh.below 0).below 0)
  rw [Tree.pageNode, render_articlePage, render_articlePage, ← harticle]
  rfl

/-- The calls of a page that fail when it is an article by itself, in the order of their spans. -/
def Page.failures (p : Page) (m : Markers) (fresh : Fresh) : List SpanError :=
  (process .builtin p.context m ((fresh.below 0).below 0) p.template).errors

/-- A page as two files on a disk have it: a file that is called like the page holds its template,
and another one its context. -/
structure Page.InFiles (p : Page) (d : Disk) (file companion : Path) : Prop where
  template : d.readText file = .ok p.template
  stem : file.stem? = some p.name
  context : readContext d companion = .ok p.context

variable {m : Markers} {p : Page}

/-- A page without links renders if none of its calls fail, and otherwise fails with those that
do. -/
theorem render_pageNode_of_failures (c : Config) (t : Tree) (id : Nat)
    (hlink : ¬ Calls m p.template "link") (fresh : Fresh) :
    (p.failures m fresh = [] →
      ∃ f, (t.pageNode (c.renderOptions m) id p).render fresh = .ok f) ∧
    (p.failures m fresh ≠ [] →
      (t.pageNode (c.renderOptions m) id p).render fresh = .error (p.failures m fresh)) := by
  rw [render_pageNode (o := c.renderOptions m) hlink]
  exact render_articlePage_of_errors
    { t.article (c.renderOptions m) id p with functions := .builtin } _ _ _ _ rfl

variable {c : Config}

/-- The page of an article is a page of a site, up to links. -/
theorem render_singlePage {d : Disk} {template context : Path} (hp : p.IsLoaded)
    (htitle : c.site.title = "") (hmark : c.markers = .ok m)
    (hlink : ¬ Calls m p.template "link") (hfiles : p.InFiles d template context) (t : Tree)
    (id : Nat) : ∃ page, c.singlePage d template context = .ok page ∧
      ∀ fresh, page.render fresh = (t.pageNode (c.renderOptions m) id p).render fresh := by
  refine ⟨_, by rw [Config.singlePage, hfiles.template, hfiles.context, hmark]; rfl,
    fun fresh => ?_⟩
  have htitleOf : p.fullTitle (c.renderOptions m).siteTitle = articleTitle template p.template := by
    rw [← fullTitle_eq_articleTitle hp hfiles.stem, Config.renderOptions, htitle]
    rfl
  rw [render_pageNode (o := c.renderOptions m) hlink, htitleOf, Tree.article, hp.resources]
  rfl

/-- An article by itself has the title of its text or its file, and the language and the head of
the configuration. -/
theorem markup_singlePage {d : Disk} {template context : Path} {page : Node}
    (h : c.singlePage d template context = .ok page) :
    ∃ source values markers, d.readText template = .ok source ∧
      readContext d context = .ok values ∧ c.markers = .ok markers ∧
      ∀ fresh, (page.render fresh).map Fragment.markup =
        (Article.render ⟨source, values, .builtin, markers, []⟩ ((fresh.below 0).below 0)).map
          (articleText (articleTitle template source) c.site.language c.build.head.tags) := by
  obtain ⟨source, hsource, h⟩ := bind_eq_ok_iff.mp h
  obtain ⟨values, hvalues, h⟩ := bind_eq_ok_iff.mp h
  obtain ⟨markers, hmarkers, h⟩ := bind_eq_ok_iff.mp h
  cases h
  exact ⟨source, values, markers, mapError_eq_ok_iff.mp hsource, mapError_eq_ok_iff.mp hvalues,
    mapError_eq_ok_iff.mp hmarkers, markup_articlePage _ _ _ _⟩

/-- Rendering an article gives what the page of a site renders to, its markup or its errors. -/
theorem renderSingle_eq {desk : Desk} {template context : Path} (hp : p.IsLoaded)
    (htitle : c.site.title = "") (hmark : c.markers = .ok m)
    (hlink : ¬ Calls m p.template "link") (hfiles : p.InFiles desk.disk template context)
    (t : Tree) (id : Nat) (fresh : Fresh) : (c.renderSingle fresh template context desk).1 =
      match (t.pageNode (c.renderOptions m) id p).render fresh with
      | .ok f => .ok f.markup
      | .error errors => .error (.calls errors) := by
  obtain ⟨page, hpage, hrender⟩ := render_singlePage hp htitle hmark hlink hfiles t id
  rw [← hrender, Config.renderSingle, Noted.bind_apply, Noted.look, hpage]
  dsimp only
  rw [Noted.bind_apply, Noted.look]
  cases page.render fresh with
  | error errors => rfl
  | ok f => rfl

end PageLoom
