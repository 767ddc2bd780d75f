/-!
Blanks, comments and strings of TOML. Every reader takes the characters that are left
and gives what it read with the characters behind it.
-/

namespace Monomorph.Toml

def isBlank (c : Char) : Bool := c == ' ' || c == '\t'

/-- Control characters other than the tab stand nowhere in a line. -/
def isPlain (c : Char) : Bool :=
  c == '\t' || (0x20 ≤ c.toNat && c.toNat ≤ 0x7E) || 0x80 ≤ c.toNat

def skipBlanks (cs : List Char) : List Char := cs.dropWhile isBlank

/-- A line ends with a line feed, which a carriage return may precede. -/
def newline? : List Char → Option (List Char)
  | '\n' :: rest => some rest
  | '\r' :: '\n' :: rest => some rest
  | _ => none

def skipComment : List Char → List Char
  | '#' :: rest => rest.dropWhile isPlain
  | cs => cs

/-- The end of a line behind blanks and a comment. The end of the document will do. -/
def lineEnd? (cs : List Char) : Option (List Char) :=
  match skipComment (skipBlanks cs) with
  | [] => some []
  | cs => newline? cs

/-- Blanks, line ends and comments, as they stand between the elements of an array. The
flag tells whether a comment is being skipped. -/
def skipFiller (comment : Bool) : List Char → List Char
  | [] => []
  | '\n' :: rest => skipFiller false rest
  | '\r' :: '\n' :: rest => skipFiller false rest
  | c :: rest =>
      if comment && isPlain c then skipFiller true rest
      else if !comment && c == '#' then skipFiller true rest
      else if !comment && isBlank c then skipFiller false rest
      else c :: rest

def hexDigit? (c : Char) : Option Nat :=
  if '0' ≤ c ∧ c ≤ '9' then some (c.toNat - 48)
  else if 'a' ≤ c ∧ c ≤ 'f' then some (c.toNat - 87)
  else if 'A' ≤ c ∧ c ≤ 'F' then some (c.toNat - 55)
  else none

def number? (digit? : Char → Option Nat) (base : Nat) (digits : List Char) : Option Nat :=
  digits.foldlM (fun value c => (digit? c).map (value * base + ·)) 0

/-- The character with a code point given in hexadecimal. Surrogates are no characters. -/
def codePoint? (digits : List Char) : Option Char := do
  let value ← number? hexDigit? 16 digits
  if value.isValidChar then some (Char.ofNat value) else none

/-- What a backslash stands for, and what follows it. -/
def escape? : (cs : List Char) → Option (Char × { rest : List Char // rest.length < cs.length })
  | 'b' :: rest => some ('\x08', ⟨rest, by simp⟩)
  | 't' :: rest => some ('\t', ⟨rest, by simp⟩)
  | 'n' :: rest => some ('\n', ⟨rest, by simp⟩)
  | 'f' :: rest => some ('\x0c', ⟨rest, by simp⟩)
  | 'r' :: rest => some ('\r', ⟨rest, by simp⟩)
  | '\x22' :: rest => some ('\x22', ⟨rest, by simp⟩)
  | '\\' :: rest => some ('\\', ⟨rest, by simp⟩)
  | 'u' :: a :: b :: c :: d :: rest =>
      (codePoint? [a, b, c, d]).map fun char => (char, ⟨rest, by simp; omega⟩)
  | 'U' :: a :: b :: c :: d :: e :: f :: g :: h :: rest =>
      (codePoint? [a, b, c, d, e, f, g, h]).map fun char => (char, ⟨rest, by simp; omega⟩)
  | _ => none

/-- A string on one line, behind its opening quote. A backslash is special in `"`
strings only. -/
def line? (quote : Char) (cs : List Char) : Option (List Char × List Char) :=
  match cs with
  | [] => none
  | c :: rest =>
      if c == quote then some ([], rest)
      else if c == '\\' && quote == '\x22' then
        match escape? rest with
        | none => none
        | some (char, ⟨tail, _⟩) => (line? quote tail).map fun (text, rest) => (char :: text, rest)
      else if isPlain c then (line? quote rest).map fun (text, rest) => (c :: text, rest)
      else none
termination_by cs.length
decreasing_by
  · simp_all; omega
  · simp

/-- Up to two quotes before the three that close a string belong to it. -/
def closing (quote : Char) : List Char → List Char × List Char
  | a :: b :: rest =>
      if a == quote && b == quote then ([quote, quote], rest)
      else if a == quote then ([quote], b :: rest)
      else ([], a :: b :: rest)
  | [a] => if a == quote then ([quote], []) else ([], [a])
  | [] => ([], [])

/-- A string over several lines, behind its three opening quotes. A backslash at the end
of a line takes away all blanks and line ends up to the next text; while it does so, the
flag `trimming` is set. -/
def block? (quote : Char) (trimming : Bool) (cs : List Char) : Option (List Char × List Char) :=
  match cs with
  | [] => none
  | c :: rest =>
      if c == quote then
        if rest.take 2 == [quote, quote] then some (closing quote (rest.drop 2))
        else (block? quote false rest).map fun (text, rest) => (c :: text, rest)
      else if c == '\\' && quote == '\x22' then
        if (newline? (skipBlanks rest)).isSome then block? quote true rest
        else
          match escape? rest with
          | none => none
          | some (char, ⟨tail, _⟩) =>
              (block? quote false tail).map fun (text, rest) => (char :: text, rest)
      else if c == '\r' then
        if rest.head? == some '\n' then block? quote trimming rest else none
      else if trimming && (isBlank c || c == '\n') then block? quote true rest
      else if c == '\n' || isPlain c then
        (block? quote false rest).map fun (text, rest) => (c :: text, rest)
      else none
termination_by cs.length
decreasing_by all_goals simp_all <;> omega

/-- A string value behind its first quote. -/
def string? (quote : Char) (cs : List Char) : Option (String × List Char) :=
  let read :=
    match cs with
    | a :: b :: rest =>
        if a == quote && b == quote then block? quote false ((newline? rest).getD rest)
        else line? quote cs
    | _ => line? quote cs
  read.map fun (text, rest) => (String.ofList text, rest)

end Monomorph.Toml
