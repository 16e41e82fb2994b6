import PageLoom.Command.Invocation
import PageLoom.Config.Error
import PageLoom.Config.Reader

/-!
# The configuration of an invocation

What the command line says comes before what the file of the configuration says.
After that, all paths are made absolute, beginning at the folder of the project.
-/

namespace PageLoom

namespace Config

/-- A configuration with the choices of the command line. -/
def choose (c : Config) : Action → Config
  | .render _ _ => c
  | .build clean minify output =>
      { c with build :=
        { c.build with
          clean := c.build.clean || clean
          minify := minify.getD c.build.minify
          output := output.getD c.build.output } }

/-- A configuration with absolute paths, beginning at `root`. -/
def settleAt (c : Config) (d : Disk) (root file : Path) : Config :=
  let root := d.absolute root
  let settle (p : Path) : Path := d.absolute (root.join p.text)
  { c with
    file := settle file
    build :=
      { c.build with
        root := some root
        content := settle c.build.content
        output := settle c.build.output
        assets := settle c.build.assets
        context := c.build.context.map settle } }

/-- The configuration of an invocation, given the one in its file. -/
def resolve (c : Config) (d : Disk) (i : Invocation) : Config :=
  (c.choose i.action).settleAt d (i.root.getD c.root) i.config

/-- The file of the configuration of an invocation. -/
def fileOf (i : Invocation) : Path := (i.root.getD ⟨"./"⟩).join i.config.text

/-- The configuration in a file. -/
def load (d : Disk) (p : Path) : Except ConfigError Config :=
  match d.readText p with
  | .error e => .error (.file p e)
  | .ok text =>
      match Config.read? text with
      | some c => .ok c
      | none => .error .notSettings

end Config

end PageLoom
