/-!
# Values of a configuration file

The data that a file in the TOML format holds, with what a table needs to know about its own
origin: a table that a header has defined is closed to later headers and to dotted keys.

## Main definitions

* `Conch.Toml.Item` — a value, a table or a list of tables.
* `Conch.Toml.insert` — set a dotted key.
* `Conch.Toml.Document` — a document under construction; `Document.openTable` and
  `Document.openElement` start a table.
* `Conch.Toml.Item.member?` — a member of a section, by name or by position.
-/

set_option autoImplicit false

namespace Conch.Toml

/-- How a table came to be. -/
inductive Origin where
  /-- By its own header. -/
  | header
  /-- By the header of a table below it. -/
  | implied
  /-- By a dotted key. -/
  | dotted
  deriving DecidableEq, Repr, Inhabited

/-- What a key can stand for. -/
inductive Item where
  | string (text : String)
  | integer (n : Int)
  | boolean (b : Bool)
  /-- A number with a fraction or an exponent; no setting takes one. -/
  | float
  /-- A date or a time; no setting takes one, and as a section it is one without members. -/
  | dateTime
  | array (elements : List Item)
  /-- A table written as a value, closed to later keys. -/
  | inline (entries : List (String × Item))
  | table (origin : Origin) (entries : List (String × Item))
  /-- Tables that share one header, the last of which is still open. -/
  | tables (elements : List (List (String × Item)))
  deriving Repr, Inhabited

/-- The keys of a table with their items. -/
abbrev Entries := List (String × Item)

/-- Put an item at a key, in place of the one that is there. -/
def put (key : String) (item : Item) : Entries → Entries
  | [] => [(key, item)]
  | (k, i) :: rest => if k = key then (key, item) :: rest else (k, i) :: put key item rest

/-- Change the table at the end of a path, making the tables on the way that are missing.  A path
of a header leads through any table and into the last of several; a dotted key leads only through
tables that no header has defined.  The change is told whether the table stems from a dotted
key. -/
def update (viaKey : Bool) (change : Bool → Entries → Option Entries) :
    Bool → List String → Entries → Option Entries
  | dotted, [], entries => change dotted entries
  | _, key :: path, entries => match entries.lookup key with
    | none => do
      let inner ← update viaKey change viaKey path []
      return put key (.table (if viaKey then .dotted else .implied) inner) entries
    | some (.table origin inner) =>
      if viaKey && origin = .header then none
      else do
        let inner ← update viaKey change (origin = .dotted) path inner
        return put key (.table origin inner) entries
    | some (.tables elements) => match elements.reverse with
      | [] => none
      | last :: before => do
        let last ← update viaKey change false path last
        return put key (.tables (before.reverse ++ [last])) entries
    | some _ => none

/-- Set the key `path.key`, which must be new.  A key without a path belongs to a table that no
dotted key has made, and one with a path to a table that a dotted key has made. -/
def insert (path : List String) (key : String) (item : Item) (entries : Entries) :
    Option Entries :=
  update true
    (fun dotted entries =>
      if dotted = path.isEmpty || (entries.lookup key).isSome then none
      else some (entries ++ [(key, item)]))
    false path entries

/-- A document under construction. -/
structure Document where
  /-- The tables that are finished. -/
  root : Entries
  /-- The table that takes the keys to come. -/
  current : Entries
  /-- The header of that table; nothing before the first header. -/
  header : List String
  /-- The table is one of several under its header. -/
  isElement : Bool
  deriving Repr, Inhabited

namespace Document

/-- A document without a key. -/
def empty : Document := ⟨[], [], [], false⟩

/-- The tables with the current one put where its header says. -/
def close (d : Document) : Option Entries :=
  match d.header.reverse with
  | [] => some d.current
  | key :: above =>
    update false
      (fun _ entries =>
        if d.isElement then match entries.lookup key with
          | none => some (entries ++ [(key, .tables [d.current])])
          | some (.tables elements) => some (put key (.tables (elements ++ [d.current])) entries)
          | some _ => none
        else some (put key (.table .header d.current) entries))
      false above.reverse d.root

/-- The item at a key of the table at the end of a header's path; nothing if the path leads
through a value. -/
def itemAt? : List String → String → Entries → Option (Option Item)
  | [], key, entries => some (entries.lookup key)
  | k :: path, key, entries => match entries.lookup k with
    | none => some none
    | some (.table _ inner) => itemAt? path key inner
    | some (.tables elements) => (elements.getLast?).bind (itemAt? path key)
    | some _ => none

/-- Start the table under a header, which may have been implied but not defined before. -/
def openTable (d : Document) (path : List String) (key : String) : Option Document := do
  let root ← d.close
  match ← itemAt? path key root with
  | none => return ⟨root, [], path ++ [key], false⟩
  | some (.table .implied inner) => return ⟨root, inner, path ++ [key], false⟩
  | some _ => none

/-- Start a further table under a header for several. -/
def openElement (d : Document) (path : List String) (key : String) : Option Document := do
  let root ← d.close
  match ← itemAt? path key root with
  | none | some (.tables _) => return ⟨root, [], path ++ [key], true⟩
  | some _ => none

/-- Set a key of the current table. -/
def set (d : Document) (path : List String) (key : String) (item : Item) : Option Document := do
  return { d with current := ← insert path key item d.current }

end Document

/-- The member of a section: by name in a table, by position in an array; a date has no members.
The outer `none` tells that the item is no section. -/
def Item.member? (item : Item) (position : Nat) (name : String) : Option (Option Item) :=
  match item with
  | .inline entries | .table _ entries => some (entries.lookup name)
  | .array elements => some elements[position]?
  | .tables elements => some (elements[position]?.map (.table .header))
  | .dateTime => some none
  | .string _ | .integer _ | .boolean _ | .float => none

end Conch.Toml
