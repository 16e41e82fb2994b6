import PageLoom.NameMap

/-!
# Tables of settings

A TOML document is a table of named items.  A table comes into being in one of four
ways: its header stands in the text, the header of a table inside it does, a dotted
key leads through it, or it is written out in braces.

A name is defined once.  A header may still be given to a table that exists only
because of headers inside it, and dotted keys may lead through a table that exists
only because of dotted keys.  A table in braces is complete.
-/

namespace PageLoom

/-- How a table comes into being. -/
inductive Toml.Origin
  | header | passed | dotted | braces
deriving DecidableEq, Repr

/-- An item of a document. -/
inductive Toml
  | str (s : String)
  | bool (b : Bool)
  | integer (n : Int64)
  | float (x : Float)
  /-- A date, a time, or both, as written. -/
  | moment (text : String)
  | array (items : List Toml)
  | table (origin : Toml.Origin) (entries : List (String × Toml))
  /-- Tables that are headed one by one. -/
  | tables (items : List Toml)
deriving Inhabited

namespace Toml

/-- The entries of a table. -/
abbrev Entries := List (String × Toml)

/-- Change the table at a path, making tables that are not there.  `dotted` tells
whether the path is a dotted key, and not a header.  The change is given how the table
came into being. -/
def changeAt (dotted : Bool) (change : Origin → Entries → Option Entries) :
    List String → Origin → Entries → Option Entries
  | [], origin, entries => change origin entries
  | name :: path, _, entries =>
      match lookupName name entries with
      | none => do
          let origin := if dotted then Origin.dotted else .passed
          let inside ← changeAt dotted change path origin []
          return insertName name (.table origin inside) entries
      | some (.table .braces _) => none
      | some (.table origin inside) =>
          if dotted && origin == .header then none
          else do
            let inside ← changeAt dotted change path origin inside
            return insertName name (.table origin inside) entries
      | some (.tables items) =>
          match items.reverse with
          | .table origin inside :: before => do
              let inside ← changeAt dotted change path origin inside
              return insertName name (.tables (.table origin inside :: before).reverse) entries
          | _ => none
      | some _ => none

/-- Define a name, unless it is defined. -/
def define (name : String) (item : Toml) (entries : Entries) : Option Entries :=
  if (lookupName name entries).isSome then none else some (insertName name item entries)

/-- Define what a key leads to.  A dotted key adds to tables of dotted keys only. -/
def defineAt (path : List String) (name : String) (item : Toml) (entries : Entries) :
    Option Entries :=
  changeAt true (fun origin inside =>
      if path.isEmpty || origin == .dotted then define name item inside else none)
    path .header entries

/-- Define a table by its header. -/
def openTable (name : String) (entries : Entries) : Option Entries :=
  match lookupName name entries with
  | none => some (insertName name (.table .header []) entries)
  | some (.table .passed inside) => some (insertName name (.table .header inside) entries)
  | some _ => none

/-- Add a table to those that are headed one by one. -/
def appendTable (name : String) (entries : Entries) : Option Entries :=
  match lookupName name entries with
  | none => some (insertName name (.tables [.table .header []]) entries)
  | some (.tables items) => some (insertName name (.tables (items ++ [.table .header []])) entries)
  | some _ => none

end Toml

end PageLoom
