import PageLoom.Config.Resolve
import PageLoom.Site.Single

/-!
# The program

A command line is carried out on a disk.  What comes out is text for standard output,
notes for the log, the disk as it is then, and a code: 0 if all went well, 1 if the
work failed, and 2 if the command line says nothing that can be done.
-/

namespace PageLoom

/-- What comes out of the program. -/
structure Report where
  code : Nat
  output : String := ""
  log : List String := []
  disk : Disk

/-- The version as it is shown. -/
def versionText : String := "docweave 0.1.0\n"

/-- How the program is used. -/
def usageText : String :=
  "Assemble multi-page HTML documents from Markdown templates\n\n" ++
  "Usage: docweave [OPTIONS] <COMMAND>\n\n" ++
  "Commands:\n" ++
  "  render <TEMPLATE> <CONTEXT>  Render one template to standard output\n" ++
  "  build                        Build the content directory into the output directory\n" ++
  "  help                         Print this message\n\n" ++
  "Options:\n" ++
  "  -r, --root <ROOT>      Project root directory\n" ++
  "  -C, --config <CONFIG>  Config file name [default: docweave.toml]\n" ++
  "  -h, --help             Print help\n" ++
  "  -V, --version          Print version\n\n" ++
  "Options of build:\n" ++
  "      --clean            Remove the output directory before building\n" ++
  "  -m, --minify[=<BOOL>]  Make the HTML smaller\n" ++
  "  -o, --output <OUTPUT>  Output directory\n"

/-- The paths that an invocation looks at once its configuration is known. -/
def pathsOf (i : Invocation) (c : Config) : List Path :=
  match i.action with
  | .render template context => [template, context] ++ c.build.context.toList
  | .build _ _ _ =>
      [c.build.content, c.build.output, c.build.assets] ++ c.build.context.toList

/-- The configuration of an invocation.  Building notes that there is no file for it. -/
def loadConfig (i : Invocation) : Noted Config := do
  let file := Config.fileOf i
  let found ← Noted.look fun d => .ok (d.has file)
  let isBuild := match i.action with
    | .build _ _ _ => true
    | .render _ _ => false
  let c ← if found then Noted.look fun d => (Config.load d file).mapError .config
    else do
      if isBuild then Noted.note "build" (file.text ++ " not found, using defaults")
      pure {}
  let c ← Noted.look fun d => .ok (c.resolve d i)
  Noted.look fun d => (c.validate d).mapError .config
  return c

/-- Carry out an invocation, and tell what goes to standard output. -/
def perform (i : Invocation) (fresh : Fresh) : Noted String := do
  let c ← loadConfig i
  match i.action with
  | .render template context => c.renderSingle fresh template context
  | .build _ _ _ => do
      let _ ← c.buildSite fresh
      return ""

/-- Carry out a command line on a disk. -/
def runCommand (d : Disk) (fresh : Fresh) (args : List String) : Report :=
  match Invocation.ofArguments args with
  | .error .helpWanted => { code := 0, output := usageText, disk := d }
  | .error .versionWanted => { code := 0, output := versionText, disk := d }
  | .error _ => { code := 2, disk := d }
  | .ok i =>
      match perform i fresh { disk := d } with
      | (.ok output, desk) =>
          { code := 0, output, log := desk.notes.flatMap Note.lines, disk := desk.disk }
      | (.error e, desk) =>
          { code := 1, log := (desk.notes ++ e.notes).flatMap Note.lines, disk := desk.disk }

end PageLoom
