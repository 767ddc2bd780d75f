import Monomorph.Toml.Scalar

/-!
Whole TOML documents. `Toml.document?` gives the entries of a document, or nothing if
the text is not one: the grammar is that of version 1.0, and arrays, inline tables and
the parts of a key nest less than eighty deep.
-/

namespace Monomorph.Toml

/-- Nesting stays below this depth. -/
def depthLimit : Nat := 80

def isBare (c : Char) : Bool := c.isAlphanum || c == '-' || c == '_'

def simpleKey? : List Char → Option (String × List Char)
  | '\x22' :: rest => (line? '\x22' rest).map fun (text, rest) => (String.ofList text, rest)
  | '\x27' :: rest => (line? '\x27' rest).map fun (text, rest) => (String.ofList text, rest)
  | cs =>
      match cs.takeWhile isBare with
      | [] => none
      | name => some (String.ofList name, cs.dropWhile isBare)

/-- The parts of a key, which dots divide. Each part takes a character at least, so
`fuel` need not exceed the number of characters. -/
def keyParts? (fuel : Nat) (cs : List Char) : Option (List String × List Char) :=
  match fuel with
  | 0 => none
  | fuel + 1 => do
      let (part, rest) ← simpleKey? (skipBlanks cs)
      match skipBlanks rest with
      | '.' :: rest => do
          let (parts, rest) ← keyParts? fuel rest
          some (part :: parts, rest)
      | rest => some ([part], rest)

/-- A key as the path that leads to it and its last part. -/
def key? (cs : List Char) : Option (List String × String × List Char) := do
  let (parts, rest) ← keyParts? (cs.length + 1) cs
  let last ← parts.getLast?
  if parts.length < depthLimit then some (parts.dropLast, last, rest) else none

/-- A key and its value. -/
def pair (value? : List Char → Option (Node × List Char)) (cs : List Char) :
    Option (List String × String × Node × List Char) := do
  let (path, key, rest) ← key? cs
  match rest with
  | '=' :: rest => do
      let (node, rest) ← value? (skipBlanks rest)
      some (path, key, node, rest)
  | _ => none

/-- The elements of an array, behind its opening bracket. -/
def elements? (value? : List Char → Option (Node × List Char)) (fuel : Nat) (cs : List Char) :
    Option (List Node × List Char) :=
  match fuel with
  | 0 => none
  | fuel + 1 =>
      match skipFiller false cs with
      | ']' :: rest => some ([], rest)
      | cs => do
          let (node, rest) ← value? cs
          match skipFiller false rest with
          | ']' :: rest => some ([node], rest)
          | ',' :: rest => do
              let (nodes, rest) ← elements? value? fuel rest
              some (node :: nodes, rest)
          | _ => none

/-- The entries of an inline table from its first key on. -/
def inlineEntries? (value? : List Char → Option (Node × List Char)) (fuel : Nat)
    (entries : Entries) (cs : List Char) : Option (Entries × List Char) :=
  match fuel with
  | 0 => none
  | fuel + 1 => do
      let (path, key, node, rest) ← pair value? cs
      let (_, entries) ← addKey path key node .inline entries
      match skipBlanks rest with
      | '\x7d' :: rest => some (entries, rest)
      | ',' :: rest => inlineEntries? value? fuel entries rest
      | _ => none

def inlineTable? (value? : List Char → Option (Node × List Char)) (cs : List Char) :
    Option (Entries × List Char) :=
  match skipBlanks cs with
  | '\x7d' :: rest => some ([], rest)
  | cs => inlineEntries? value? (cs.length + 1) [] cs

def atom? : List Char → Option (Node × List Char)
  | '\x22' :: rest => (string? '\x22' rest).map fun (text, rest) => (.string text, rest)
  | '\x27' :: rest => (string? '\x27' rest).map fun (text, rest) => (.string text, rest)
  | cs => scalar? cs

/-- A value with at most `depth` arrays and inline tables around each other. -/
def value? (depth : Nat) (cs : List Char) : Option (Node × List Char) :=
  match depth with
  | 0 => atom? cs
  | depth + 1 =>
      match cs with
      | '[' :: rest =>
          (elements? (value? depth) (rest.length + 1) rest).map fun (nodes, rest) =>
            (.array nodes, rest)
      | '\x7b' :: rest =>
          (inlineTable? (value? depth) rest).map fun (entries, rest) =>
            (.table .inline entries, rest)
      | cs => atom? cs

/-- A document as far as it was read. Keys go into the table that the last header opened. -/
structure Progress where
  entries : Entries
  current : List String

def Progress.edit (progress : Progress) (path : List String)
    (change : Origin → Entries → Option (Origin × Entries)) : Option Entries :=
  (Toml.edit .header path change .header progress.entries).map Prod.snd

def Progress.addKey (progress : Progress) (path : List String) (key : String) (node : Node) :
    Option Progress :=
  (progress.edit progress.current (Toml.addKey path key node)).map fun entries =>
    { progress with entries := entries }

def Progress.header (progress : Progress) (path : List String) (key : String)
    (change : String → Origin → Entries → Option (Origin × Entries)) : Option Progress :=
  (progress.edit path (change key)).map fun entries => ⟨entries, path ++ [key]⟩

/-- A header behind its opening brackets. -/
def header? (element : Bool) (progress : Progress) (cs : List Char) :
    Option (Progress × List Char) := do
  let (path, key, rest) ← key? cs
  match element, rest with
  | true, ']' :: ']' :: rest => do
      let rest ← lineEnd? rest
      let progress ← progress.header path key openElement
      some (progress, rest)
  | false, ']' :: rest => do
      let rest ← lineEnd? rest
      let progress ← progress.header path key openTable
      some (progress, rest)
  | _, _ => none

def keyValue? (progress : Progress) (cs : List Char) : Option (Progress × List Char) := do
  let (path, key, node, rest) ← pair (value? (depthLimit - 1)) cs
  let rest ← lineEnd? rest
  let progress ← progress.addKey path key node
  some (progress, rest)

/-- One line after another. Each takes a character at least. -/
def lines? (fuel : Nat) (progress : Progress) (cs : List Char) : Option Progress :=
  match fuel with
  | 0 => none
  | fuel + 1 =>
      match skipBlanks cs with
      | [] => some progress
      | '#' :: rest => do
          let rest ← lineEnd? ('#' :: rest)
          lines? fuel progress rest
      | '[' :: '[' :: rest => do
          let (progress, rest) ← header? true progress rest
          lines? fuel progress rest
      | '[' :: rest => do
          let (progress, rest) ← header? false progress rest
          lines? fuel progress rest
      | cs =>
          match newline? cs with
          | some rest => lines? fuel progress rest
          | none => do
              let (progress, rest) ← keyValue? progress cs
              lines? fuel progress rest

/-- A byte order mark at the beginning is skipped. -/
def document? (text : String) : Option Entries :=
  let cs :=
    match text.toList with
    | '\ufeff' :: rest => rest
    | cs => cs
  (lines? (cs.length + 1) ⟨[], []⟩ cs).map Progress.entries

end Monomorph.Toml
