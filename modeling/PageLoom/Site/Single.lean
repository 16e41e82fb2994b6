import PageLoom.Site.Build

/-!
# Rendering one article

One article is rendered as a page of its own, with the functions, markers, language and
head of a configuration.  It is no part of a tree, so it has no links to other pages.
-/

namespace PageLoom

/-- The title of an article: its first heading of the first level, or the stem of its
file. -/
def articleTitle (file : Path) (template : String) : String :=
  (headingTitle? template).getD (file.stem?.getD "")

namespace Config

/-- The page of the article in the file `template` with the context in the file
`context`. -/
def singlePage (c : Config) (d : Disk) (template context : Path) : Except SiteError Node := do
  let source ← (d.readText template).mapError (.cannotRead template)
  let context ← (readContext d context).mapError .config
  let m ← c.markers.mapError .config
  let article : Article := { template := source, context, functions := .builtin, markers := m }
  return articlePage article (articleTitle template source) c.site.language c.build.head.tags

/-- Render an article to markup. -/
def renderSingle (c : Config) (fresh : Fresh) (template context : Path) : Noted String := do
  let page ← Noted.look fun d => c.singlePage d template context
  let f ← Noted.look fun _ => (page.render fresh).mapError .calls
  Noted.note "render" template.text
  return f.markup

end Config

end PageLoom
