import PageLoom.Config.Basic
import PageLoom.Toml.Reader

/-!
# Reading a configuration

A configuration is a TOML document with the tables `base` and `build`.  Every setting
has a default, and a name that is no setting is refused.

A group of settings can also be given as an array, which holds the settings in the
order of their names here.
-/

namespace PageLoom

namespace Toml

/-- The settings of a group, in order.  Those that are missing get their defaults. -/
def settings? (names : List String) : Toml → Option (List (Option Toml))
  | .table _ entries =>
      if entries.all fun e => names.contains e.1 then
        some (names.map fun name => lookupName name entries)
      else none
  | .array items => some ((List.range names.length).map fun i => items[i]?)
  | .tables items => some ((List.range names.length).map fun i => items[i]?)
  | _ => none

/-- A setting, or its default. -/
def orElse {α : Type} (read : Toml → Option α) (default : α) : Option Toml → Option α
  | none => some default
  | some t => read t

/-- A text. -/
def text? : Toml → Option String
  | .str s => some s
  | _ => none

/-- A path. -/
def path? (t : Toml) : Option Path := t.text?.map Path.mk

/-- A choice. -/
def choice? : Toml → Option Bool
  | .bool b => some b
  | _ => none

/-- A list of texts. -/
def texts? : Toml → Option (List String)
  | .array items => items.mapM text?
  | _ => none

end Toml

open Toml

/-- The settings `[base]`. -/
def SiteInfo.ofToml? (t : Toml) : Option SiteInfo := do
  let d : SiteInfo := {}
  match ← settings? ["title", "name", "language"] t with
  | [title, name, language] =>
      return {
        title := ← orElse text? d.title title
        name := ← orElse text? d.name name
        language := ← orElse text? d.language language }
  | _ => none

/-- The settings `[build.markers]`. -/
def MarkerTexts.ofToml? (t : Toml) : Option MarkerTexts := do
  let d : MarkerTexts := {}
  match ← settings? ["start", "end"] t with
  | [start, stop] =>
      return { start := ← orElse text? d.start start, stop := ← orElse text? d.stop stop }
  | _ => none

/-- The settings `[build.head]`. -/
def HeadItems.ofToml? (t : Toml) : Option HeadItems := do
  match ← settings? ["styles", "scripts", "elements"] t with
  | [styles, scripts, elements] =>
      return {
        styles := ← orElse texts? [] styles
        scripts := ← orElse texts? [] scripts
        elements := ← orElse texts? [] elements }
  | _ => none

/-- The settings `[build]`. -/
def BuildSettings.ofToml? (t : Toml) : Option BuildSettings := do
  let d : BuildSettings := {}
  match ← settings? ["root", "content", "output", "assets", "context", "minify", "clean", "markers",
      "head"] t with
  | [root, content, output, assets, context, minify, clean, markers, head] =>
      return {
        root := ← orElse (fun t => t.path?.map some) d.root root
        content := ← orElse path? d.content content
        output := ← orElse path? d.output output
        assets := ← orElse path? d.assets assets
        context := ← orElse (fun t => t.path?.map some) d.context context
        minify := ← orElse choice? d.minify minify
        clean := ← orElse choice? d.clean clean
        markers := ← orElse MarkerTexts.ofToml? d.markers markers
        head := ← orElse HeadItems.ofToml? d.head head }
  | _ => none

/-- The configuration that a document gives. -/
def Config.read? (text : String) : Option Config := do
  let entries ← Toml.read? text
  match ← settings? ["base", "build"] (.table .header entries) with
  | [site, build] =>
      return {
        site := ← orElse SiteInfo.ofToml? {} site
        build := ← orElse BuildSettings.ofToml? {} build }
  | _ => none

end PageLoom
