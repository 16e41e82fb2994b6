import PageLoom.Toml.Scalar

/-!
# Reading a document

A document is read line by line.  A line is empty, defines a key in the table whose
header came last, or is a header.  `Toml.read?` gives the entries of the outermost
table, or nothing if the text is no document.

The reader spends fuel for every item and every line, and gets more than the text has
characters.
-/

namespace PageLoom.Toml

/-- What follows a comment, or the text itself. -/
def skipComment? (cs : List Char) : Option (List Char) :=
  match cs with
  | '#' :: rest =>
      match rest.dropWhile (!isControl ·) with
      | [] => some []
      | '\n' :: rest => some ('\n' :: rest)
      | '\r' :: '\n' :: rest => some ('\n' :: rest)
      | _ => none
  | cs => some cs

/-- What follows white space, newlines and comments. -/
def skipLines? : Nat → List Char → Option (List Char)
  | 0, _ => none
  | fuel + 1, cs => do
      match ← skipComment? (skipSpace cs) with
      | '\n' :: rest => skipLines? fuel rest
      | '\r' :: '\n' :: rest => skipLines? fuel rest
      | rest => return rest

mutual
/-- An item and what follows it. -/
def scanItem : Nat → List Char → Option (Toml × List Char)
  | 0, _ => none
  | fuel + 1, cs =>
      match cs with
      | '[' :: rest => do
          let (items, rest) ← scanItems fuel rest
          return (.array items, rest)
      | '{' :: rest =>
          match skipSpace rest with
          | '}' :: rest => some (.table .braces [], rest)
          | rest => do
              let (entries, rest) ← scanEntries fuel [] rest
              return (.table .braces entries, rest)
      | c :: _ =>
          if c == '"' || c == '\'' then do
            let (text, rest) ← scanText cs
            return (.str (String.ofList text), rest)
          else do
            let (word, rest) := scanWord cs
            return (← word? word, rest)
      | [] => none

/-- The items of an array up to its closing bracket, and what follows. -/
def scanItems : Nat → List Char → Option (List Toml × List Char)
  | 0, _ => none
  | fuel + 1, cs => do
      match ← skipLines? (cs.length + 1) cs with
      | ']' :: rest => return ([], rest)
      | cs =>
          let (item, rest) ← scanItem fuel cs
          match ← skipLines? (rest.length + 1) rest with
          | ',' :: rest =>
              let (items, rest) ← scanItems fuel rest
              return (item :: items, rest)
          | ']' :: rest => return ([item], rest)
          | _ => none

/-- The entries of a table in braces up to its closing brace, added to `entries`, and
what follows. -/
def scanEntries : Nat → Entries → List Char → Option (Entries × List Char)
  | 0, _, _ => none
  | fuel + 1, entries, cs => do
      let (path, name, item, rest) ← scanEntry fuel cs
      let entries ← defineAt path name item entries
      match skipSpace rest with
      | ',' :: rest => scanEntries fuel entries (skipSpace rest)
      | '}' :: rest => return (entries, rest)
      | _ => none

/-- A key, split before its last name, the item it defines, and what follows. -/
def scanEntry : Nat → List Char → Option (List String × String × Toml × List Char)
  | 0, _ => none
  | fuel + 1, cs => do
      let (names, rest) ← scanKey (cs.length + 1) cs
      let name ← names.getLast?
      match skipSpace rest with
      | '=' :: rest =>
          let (item, rest) ← scanItem fuel (skipSpace rest)
          return (names.dropLast, name, item, rest)
      | _ => none
end

/-- A document up to some line: the entries of the outermost table, and the path of the
table whose header came last. -/
structure Draft where
  entries : Entries := []
  current : List String := []

/-- Define a table by a header. -/
def Draft.openTable (d : Draft) (names : List String) (oneByOne : Bool) : Option Draft := do
  let name ← names.getLast?
  let entries ← changeAt false
    (fun _ inside => if oneByOne then appendTable name inside else Toml.openTable name inside)
    names.dropLast .header d.entries
  return { entries, current := names }

/-- Define a key in the current table. -/
def Draft.define (d : Draft) (path : List String) (name : String) (item : Toml) : Option Draft := do
  let entries ← changeAt false (fun _ inside => defineAt path name item inside) d.current .header
    d.entries
  return { d with entries }

/-- Read a line that is not empty, and tell what follows. -/
def Draft.line (d : Draft) (cs : List Char) : Option (Draft × List Char) :=
  match cs with
  | '[' :: '[' :: rest => do
      let (names, rest) ← scanKey (rest.length + 1) (skipSpace rest)
      match skipSpace rest with
      | ']' :: ']' :: rest => return (← d.openTable names true, rest)
      | _ => none
  | '[' :: rest => do
      let (names, rest) ← scanKey (rest.length + 1) (skipSpace rest)
      match skipSpace rest with
      | ']' :: rest => return (← d.openTable names false, rest)
      | _ => none
  | cs => do
      let (path, name, item, rest) ← scanEntry (2 * cs.length + 2) cs
      return (← d.define path name item, rest)

/-- Read the rest of a document. -/
def Draft.lines : Nat → Draft → List Char → Option Draft
  | 0, _, _ => none
  | fuel + 1, d, cs => do
      match ← skipLines? (cs.length + 1) cs with
      | [] => return d
      | cs =>
          let (d, rest) ← d.line cs
          match ← skipComment? (skipSpace rest) with
          | [] => return d
          | '\n' :: rest => Draft.lines fuel d rest
          | '\r' :: '\n' :: rest => Draft.lines fuel d rest
          | _ => none

/-- The entries of the outermost table of a document. -/
def read? (text : String) : Option Entries :=
  let cs := text.toList
  let cs := if cs.head? == some (Char.ofNat 0xFEFF) then cs.drop 1 else cs
  (Draft.lines (cs.length + 1) {} cs).map Draft.entries

end PageLoom.Toml
