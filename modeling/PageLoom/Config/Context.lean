import PageLoom.Config.Basic
import PageLoom.Config.Error
import PageLoom.Json.Reader

/-!
# The context of a site

A context stands in a file as a JSON object.
-/

namespace PageLoom

/-- The context in the file at the path `p`, given what reading it gives. -/
def contextOf (p : Path) (content : Except DiskError String) : Except ConfigError Context :=
  match content with
  | .error e => .error (.file p e)
  | .ok text =>
      match Json.read? text with
      | none => .error (.notJson p)
      | some json => (Context.ofJson? json).mapError (.contextShape p)

/-- The context in a file. -/
def readContext (d : Disk) (p : Path) : Except ConfigError Context := contextOf p (d.readText p)

namespace Config

/-- The markers of a configuration. -/
def markers (c : Config) : Except ConfigError Markers :=
  (Markers.ofTexts? c.build.markers.start c.build.markers.stop).mapError .markers

/-- Check what the settings say about markers and about the disk. -/
def validate (c : Config) (d : Disk) : Except ConfigError Unit :=
  match c.markers with
  | .error e => .error e
  | .ok _ =>
      match c.build.context with
      | none => .ok ()
      | some p =>
          if !d.has p then .error (.contextMissing p)
          else if !d.hasFile p then .error (.contextNotFile p)
          else .ok ()

/-- The context of all pages. -/
def loadContext (c : Config) (d : Disk) : Except ConfigError Context :=
  match c.build.context with
  | none => .ok .empty
  | some p => readContext d p

end Config

end PageLoom
