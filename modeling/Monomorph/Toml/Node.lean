/-!
The tree that a TOML document describes. A table remembers what opened it, because
that decides what may still be added to it: a header opens a table once, dotted keys
add only to tables that no header opened, and an inline table is complete.
-/

namespace Monomorph.Toml

inductive Origin where
  /-- Written out by a header of its own, or the document itself. -/
  | header
  /-- Passed through by a longer header. -/
  | implied
  /-- Passed through by a dotted key. -/
  | dotted
  | inline
deriving DecidableEq

inductive Node where
  | string (text : String)
  | integer (value : Int)
  /-- A number with a fraction or an exponent, as it was written. -/
  | float (text : String)
  | boolean (value : Bool)
  /-- A date, a time or both, as it was written. -/
  | datetime (text : String)
  | array (elements : List Node)
  | table (origin : Origin) (entries : List (String × Node))
  /-- Tables that were each opened by a header in double brackets. -/
  | tables (elements : List (List (String × Node)))

abbrev Entries := List (String × Node)

def Entries.get? (entries : Entries) (key : String) : Option Node :=
  (entries.find? fun entry => entry.1 == key).map Prod.snd

def Entries.replace (entries : Entries) (key : String) (node : Node) : Entries :=
  entries.map fun entry => if entry.1 == key then (key, node) else entry

def Entries.add (entries : Entries) (key : String) (node : Node) : Entries :=
  entries ++ [(key, node)]

/-- What a path of keys stands in. -/
inductive Walk where
  | header
  | key
deriving DecidableEq

/-- How a table that a path passes through for the first time is opened. -/
def Walk.origin : Walk → Origin
  | .header => .implied
  | .key => .dotted

/-- Whether a path may pass through a table. -/
def Walk.enters : Walk → Origin → Bool
  | .header, origin => origin != .inline
  | .key, origin => origin == .implied || origin == .dotted

/-- Change the table at the end of a path. In a list of tables the path goes on in the
last one. -/
def edit (walk : Walk) (path : List String)
    (change : Origin → Entries → Option (Origin × Entries)) (origin : Origin)
    (entries : Entries) : Option (Origin × Entries) :=
  match path with
  | [] => change origin entries
  | key :: rest =>
      match entries.get? key with
      | none => do
          let (inner, content) ← edit walk rest change walk.origin []
          some (origin, entries.add key (.table inner content))
      | some (.table inner content) =>
          if walk.enters inner then do
            let (inner, content) ← edit walk rest change inner content
            some (origin, entries.replace key (.table inner content))
          else none
      | some (.tables elements) => do
          let last ← elements.getLast?
          let (_, content) ← edit walk rest change .header last
          some (origin, entries.replace key (.tables (elements.dropLast ++ [content])))
      | some _ => none

/-- Set a key in a table. A key of several parts ends in a table of dotted keys. -/
def addKey (path : List String) (key : String) (node : Node) :
    Origin → Entries → Option (Origin × Entries) :=
  edit .key path fun origin entries =>
    if (origin == .dotted) == path.isEmpty then none
    else if (entries.get? key).isSome then none
    else some (origin, entries.add key node)

/-- Open the table of a header. -/
def openTable (key : String) (origin : Origin) (entries : Entries) :
    Option (Origin × Entries) :=
  match entries.get? key with
  | none => some (origin, entries.add key (.table .header []))
  | some (.table .implied content) => some (origin, entries.replace key (.table .header content))
  | some _ => none

/-- Open the next table of a header in double brackets. -/
def openElement (key : String) (origin : Origin) (entries : Entries) :
    Option (Origin × Entries) :=
  match entries.get? key with
  | none => some (origin, entries.add key (.tables [[]]))
  | some (.tables elements) => some (origin, entries.replace key (.tables (elements ++ [[]])))
  | some _ => none

end Monomorph.Toml
