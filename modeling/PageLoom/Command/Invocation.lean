import PageLoom.Disk.Path

/-!
# Invocations

The program is told on its command line what to do: `render` one article to standard
output, or `build` a site.  The folder of the project and the file of its configuration
can be named before and after that word; what is named after it counts.

A setting is named by a long word after `--` or by one letter after `-`.  Its value
follows as the next argument, after `=`, or right after the letter.  After `--` all
arguments are values.  A setting cannot be given twice.
-/

namespace PageLoom

/-- What to do. -/
inductive Action
  | render (template context : Path)
  | build (clean : Bool) (minify : Option Bool) (output : Option Path)
deriving DecidableEq, Repr

/-- What the command line says. -/
structure Invocation where
  /-- The folder of the project. -/
  root : Option Path := none
  /-- The file of the configuration, seen from that folder. -/
  config : Path := ⟨"docweave.toml"⟩
  action : Action
deriving DecidableEq, Repr

namespace Invocation

/-- Why a command line says nothing that can be done. -/
inductive UsageError
  | helpWanted | versionWanted
  /-- There are no arguments at all. -/
  | nothingGiven
  | commandMissing | unknownCommand | unknownArgument | argumentMissing | badValue | valueNotTaken
  | givenTwice
deriving DecidableEq, Repr

/-! ## What can be given -/

/-- A setting with a value. -/
inductive Setting
  | root | config | minify | output
deriving DecidableEq, Repr

/-- What a word or a letter after dashes means. -/
inductive Meaning
  | setting (s : Setting)
  | clean | help | version
deriving DecidableEq, Repr

/-- Where an argument stands: before the command, or after it. -/
inductive Level
  | top | render | build
deriving DecidableEq, Repr

/-- The meaning of a long word. -/
def ofWord? (level : Level) (word : String) : Option Meaning :=
  match level, word with
  | _, "root" => some (.setting .root)
  | _, "config" => some (.setting .config)
  | _, "help" => some .help
  | .top, "version" => some .version
  | .build, "clean" => some .clean
  | .build, "minify" => some (.setting .minify)
  | .build, "output" => some (.setting .output)
  | _, _ => none

/-- The meaning of a letter. -/
def ofLetter? (level : Level) (letter : Char) : Option Meaning :=
  match level, letter with
  | _, 'r' => some (.setting .root)
  | _, 'C' => some (.setting .config)
  | _, 'h' => some .help
  | .top, 'V' => some .version
  | .build, 'm' => some (.setting .minify)
  | .build, 'o' => some (.setting .output)
  | _, _ => none

/-- The number of values that stand alone. -/
def valueCount : Level → Nat
  | .render => 2
  | _ => 0

/-- Whether a setting can have a value. -/
def Setting.accepts : Setting → String → Bool
  | .minify, value => value == "true" || value == "false"
  | _, value => !value.isEmpty

/-! ## Reading arguments -/

/-- What was read and is not checked yet. -/
inductive Pending
  | setting (s : Setting) (value : Option String)
  | value (text : String)

/-- What was read so far. -/
structure Draft where
  settings : List (Setting × String) := []
  clean : Bool := false
  /-- The values that stand alone. -/
  values : List String := []
  pending : Option Pending := none
  /-- Whether the pending setting waits for its value. -/
  waiting : Bool := false

namespace Draft

/-- Give a setting a value. -/
def give (d : Draft) (s : Setting) (value : String) : Except UsageError Draft :=
  if d.settings.any (·.1 == s) then .error .givenTwice
  else if s.accepts value then .ok { d with settings := d.settings ++ [(s, value)] }
  else .error .badValue

/-- Check what is pending.  The setting `minify` without a value is `true`. -/
def settle (d : Draft) : Except UsageError Draft :=
  let rest := { d with pending := none, waiting := false }
  match d.pending with
  | none => .ok rest
  | some (.setting s (some value)) => rest.give s value
  | some (.setting .minify none) => rest.give .minify "true"
  | some (.setting _ none) => .error .badValue
  | some (.value text) =>
      if text.isEmpty then .error .badValue else .ok { rest with values := rest.values ++ [text] }

/-- Take a setting, maybe with a value right there. -/
def takeSetting (d : Draft) (s : Setting) (value : Option String) : Except UsageError Draft := do
  let d ← d.settle
  match value with
  | some value => d.give s value
  | none => return { d with pending := some (.setting s none), waiting := true }

/-- Take what has no value. -/
def takeFlag (d : Draft) (meaning : Meaning) : Except UsageError Draft := do
  let d ← d.settle
  match meaning with
  | .help => throw .helpWanted
  | .version => throw .versionWanted
  | _ => if d.clean then throw .givenTwice else return { d with clean := true }

/-- Take a long word, maybe with a value after `=`. -/
def takeWord (d : Draft) (level : Level) (word : List Char) : Except UsageError Draft :=
  let name := String.ofList (word.takeWhile (· != '='))
  let value := match word.dropWhile (· != '=') with
    | _ :: value => some (String.ofList value)
    | [] => none
  match ofWord? level name, value with
  | none, _ => .error .unknownArgument
  | some (.setting s), value => d.takeSetting s value
  | some _, some _ => .error .valueNotTaken
  | some meaning, none => d.takeFlag meaning

/-- Take letters.  What follows the letter of a setting is its value. -/
def takeLetters (d : Draft) (level : Level) : List Char → Except UsageError Draft
  | [] => .ok d
  | c :: rest =>
      match ofLetter? level c with
      | none => .error .unknownArgument
      | some (.setting s) =>
          match rest with
          | [] => d.takeSetting s none
          | '=' :: value => d.takeSetting s (some (String.ofList value))
          | value => d.takeSetting s (some (String.ofList value))
      | some meaning =>
          match d.takeFlag meaning with
          | .ok d => d.takeLetters level rest
          | .error e => .error e

/-- The number of values that stand alone, checked or not. -/
def count (d : Draft) : Nat :=
  d.values.length + match d.pending with | some (.value _) => 1 | _ => 0

/-- Take a value that stands alone.  `literal` tells whether `--` came before. -/
def takeValue (d : Draft) (level : Level) (literal : Bool) (text : String) :
    Except UsageError Draft :=
  if d.count < valueCount level then do
    let d ← d.settle
    return { d with pending := some (.value text) }
  else
    match level with
    | .top =>
        if literal && text ∈ ["render", "build", "help"] then .error .unknownArgument
        else .error .unknownCommand
    | _ => .error .unknownArgument

end Draft

/-- Read arguments up to a command.  The command and what follows it are returned too.
`literal` tells whether `--` came before. -/
def readArguments (level : Level) (d : Draft) (literal : Bool) :
    List String → Except UsageError (Draft × Option (String × List String))
  | [] => .ok (d, none)
  | arg :: rest =>
      if literal then
        match d.takeValue level true arg with
        | .ok d => readArguments level d true rest
        | .error e => .error e
      else if level == .top && !d.waiting && arg ∈ ["render", "build", "help"] then
        .ok (d, some (arg, rest))
      else
        let step : Except UsageError (Draft × Bool) :=
          match arg.toList with
          | ['-', '-'] => .ok (d, true)
          | '-' :: '-' :: word => (d.takeWord level word).map (·, false)
          | '-' :: c :: letters => (d.takeLetters level (c :: letters)).map (·, false)
          | _ =>
              match d.pending with
              | some (.setting s _) =>
                  if d.waiting then
                    let pending := Pending.setting s (some arg)
                    .ok ({ d with pending := some pending, waiting := false }, false)
                  else (d.takeValue level false arg).map (·, false)
              | _ => (d.takeValue level false arg).map (·, false)
        match step with
        | .ok (d, literal) => readArguments level d literal rest
        | .error e => .error e

/-- The arguments of a command. -/
def readCommand (level : Level) (args : List String) : Except UsageError Draft := do
  let (d, _) ← readArguments level {} false args
  let d ← d.settle
  if d.values.length < valueCount level then throw .argumentMissing
  return d

/-- The value of a setting. -/
def Draft.value? (d : Draft) (s : Setting) : Option String :=
  (d.settings.find? (·.1 == s)).map (·.2)

/-- The answer to a wish for help on a command. -/
def helpFor : List String → UsageError
  | [] => .helpWanted
  | [command] => if command ∈ ["render", "build", "help"] then .helpWanted else .unknownCommand
  | _ => .unknownCommand

/-- Read a command line, without the name of the program. -/
def ofArguments (args : List String) : Except UsageError Invocation := do
  let (outer, command) ← readArguments .top {} false args
  match command with
  | none =>
      let outer ← outer.settle
      throw (if outer.settings.isEmpty then .nothingGiven else .commandMissing)
  | some (name, rest) =>
      if name == "help" then throw (helpFor rest)
      let inner ← readCommand (if name == "render" then .render else .build) rest
      let outer ← outer.settle
      let given (s : Setting) : Option Path := ((inner.value? s).or (outer.value? s)).map Path.mk
      let action : Action := match name, inner.values with
        | "render", template :: context :: _ => .render ⟨template⟩ ⟨context⟩
        | _, _ => .build inner.clean ((inner.value? .minify).map (· == "true")) (given .output)
      return { root := given .root, config := (given .config).getD ⟨"docweave.toml"⟩, action }

end Invocation

end PageLoom
