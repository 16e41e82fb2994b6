import PageLoom.Disk.Path
import PageLoom.Markup.Node

/-!
# Configurations

A configuration tells what a site is called, where its content is and where its pages
go, how calls are marked, and what the head of every page holds besides the page's own
elements.
-/

namespace PageLoom

/-- What a site is called. -/
structure SiteInfo where
  /-- What comes after the title of every page, unless it is empty. -/
  title : String := ""
  /-- The name of the root of its tree. -/
  name : String := "main"
  /-- The language of its pages. -/
  language : String := defaultLanguage
deriving DecidableEq, Repr

/-- The texts between which calls stand. -/
structure MarkerTexts where
  start : String := String.ofList Markers.standard.start
  stop : String := String.ofList Markers.standard.stop
deriving DecidableEq, Repr

/-- What the head of every page holds. -/
structure HeadItems where
  /-- Stylesheets to link to. -/
  styles : List String := []
  /-- Scripts to link to. -/
  scripts : List String := []
  /-- Markup to copy. -/
  elements : List String := []
deriving DecidableEq, Repr

/-- The elements of a head: stylesheets, then scripts, then copied markup. -/
def HeadItems.tags (h : HeadItems) : List Tag :=
  h.styles.map .stylesheet ++ h.scripts.map .script ++ h.elements.map .passthrough

/-- How a site is built. -/
structure BuildSettings where
  /-- The folder that the other paths start in. -/
  root : Option Path := none
  /-- The folder of pages and their companions. -/
  content : Path := ⟨"content"⟩
  /-- The folder that the site is built into. -/
  output : Path := ⟨"public"⟩
  /-- A folder whose files are copied. -/
  assets : Path := ⟨"assets"⟩
  /-- The file of the context of all pages. -/
  context : Option Path := none
  /-- Whether markup is made smaller. -/
  minify : Bool := false
  /-- Whether the output folder is removed first. -/
  clean : Bool := false
  markers : MarkerTexts := {}
  head : HeadItems := {}
deriving DecidableEq, Repr

/-- A configuration. -/
structure Config where
  /-- The file it stands in. -/
  file : Path := ⟨""⟩
  site : SiteInfo := {}
  build : BuildSettings := {}
deriving DecidableEq, Repr

/-- The folder that the paths of a configuration start in. -/
def Config.root (c : Config) : Path := c.build.root.getD ⟨"./"⟩

end PageLoom
