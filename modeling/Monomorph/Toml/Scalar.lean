import Monomorph.Toml.Node
import Monomorph.Toml.Text

/-!
Numbers, truth values, dates and times of TOML. They are written without blanks,
except for one between a date and a time, so each is read as a whole word first and
then recognised.
-/

namespace Monomorph.Toml

def decimalDigit? (c : Char) : Option Nat :=
  if '0' ≤ c ∧ c ≤ '9' then some (c.toNat - 48) else none

def isDecimal (c : Char) : Bool := (decimalDigit? c).isSome

/-- Digits, where a single underscore may stand between two of them. -/
def digits? (isDigit : Char → Bool) : List Char → Option (List Char)
  | [] => none
  | [c] => if isDigit c then some [c] else none
  | c :: '_' :: d :: rest =>
      if isDigit c then (digits? isDigit (d :: rest)).map (c :: ·) else none
  | c :: d :: rest =>
      if isDigit c then (digits? isDigit (d :: rest)).map (c :: ·) else none

/-- A decimal number without a sign. Only zero begins with a zero. -/
def natural? (word : List Char) : Option Nat := do
  let digits ← digits? isDecimal word
  if digits.head? = some '0' ∧ word.length ≠ 1 then none
  else number? decimalDigit? 10 digits

/-- Integers are those of 64 bits with a sign. -/
def bounded? (value : Int) : Option Node :=
  let limit : Int := Int.ofNat (Nat.pow 2 63)
  if -limit ≤ value ∧ value < limit then some (.integer value) else none

def radix? (base : Nat) (word : List Char) : Option Node := do
  let isDigit := fun c => (hexDigit? c).any (· < base)
  let digits ← digits? isDigit word
  let value ← number? hexDigit? base digits
  bounded? value

/-- The sign of a word, and the word without it. -/
def unsign : List Char → Bool × List Char
  | '+' :: rest => (false, rest)
  | '-' :: rest => (true, rest)
  | word => (false, word)

def integer? (word : List Char) : Option Node :=
  match word with
  | '0' :: 'x' :: rest => radix? 16 rest
  | '0' :: 'o' :: rest => radix? 8 rest
  | '0' :: 'b' :: rest => radix? 2 rest
  | _ => do
      let (negative, digits) := unsign word
      let value ← natural? digits
      bounded? (if negative then -value else value)

/-- Digits of a fraction or an exponent, which may begin with zeros. -/
def tail? (word : List Char) : Option (List Char) := digits? isDecimal word

/-- An exponent with its mark, or nothing. -/
def exponent? : List Char → Option Int
  | [] => some 0
  | mark :: rest =>
      if mark == 'e' || mark == 'E' then do
        let (negative, word) := unsign rest
        let digits ← tail? word
        let value ← number? decimalDigit? 10 digits
        some (if negative then -value else value)
      else none

/-- Whether `mantissa * 10 ^ exponent` is below every number that a 64-bit float rounds to
infinity. The number of digits decides unless the value is near that bound. -/
def isFinite (mantissa : Nat) (exponent : Int) : Bool :=
  let bound := Nat.pow 2 1024 - Nat.pow 2 970
  let length : Int := (Nat.toDigits 10 mantissa).length
  if mantissa = 0 ∨ length + exponent ≤ 308 then true
  else if length + exponent > 310 then false
  else if exponent < 0 then decide (mantissa < bound * Nat.pow 10 exponent.natAbs)
  else decide (mantissa * Nat.pow 10 exponent.natAbs < bound)

/-- A number with a fraction, an exponent or both. A positive one must be finite. -/
def float? (word : List Char) : Option Node := do
  let (negative, body) := unsign word
  let isWhole := fun c => isDecimal c || c == '_'
  let whole ← digits? isDecimal (body.takeWhile isWhole)
  let _ ← natural? (body.takeWhile isWhole)
  let node := Node.float (String.ofList word)
  match body.dropWhile isWhole with
  | [] => none
  | '.' :: rest => do
      let fraction ← tail? (rest.takeWhile isWhole)
      let shift ← exponent? (rest.dropWhile isWhole)
      let mantissa ← number? decimalDigit? 10 (whole ++ fraction)
      if negative || isFinite mantissa (shift - fraction.length) then some node else none
  | rest => do
      let shift ← exponent? rest
      let mantissa ← number? decimalDigit? 10 whole
      if negative || isFinite mantissa shift then some node else none

def special? (word : List Char) : Option Node :=
  match String.ofList (unsign word).2 with
  | "inf" => some (.float (String.ofList word))
  | "nan" => some (.float (String.ofList word))
  | _ => none

/-- A number of two digits between two bounds. -/
def pair? (least greatest : Nat) (a b : Char) : Option Nat := do
  let value ← number? decimalDigit? 10 [a, b]
  if least ≤ value ∧ value ≤ greatest then some value else none

def daysIn (year month : Nat) : Nat :=
  if month = 2 then
    if year % 4 = 0 ∧ (year % 100 ≠ 0 ∨ year % 400 = 0) then 29 else 28
  else if month = 4 ∨ month = 6 ∨ month = 9 ∨ month = 11 then 30
  else 31

/-- What follows a date that exists. -/
def date? : List Char → Option (List Char)
  | y1 :: y2 :: y3 :: y4 :: '-' :: m1 :: m2 :: '-' :: d1 :: d2 :: rest => do
      let year ← number? decimalDigit? 10 [y1, y2, y3, y4]
      let month ← pair? 1 12 m1 m2
      let _ ← pair? 1 (daysIn year month) d1 d2
      some rest
  | _ => none

/-- What follows a time. The last second of a day may be a leap second. -/
def time? : List Char → Option (List Char)
  | h1 :: h2 :: ':' :: m1 :: m2 :: ':' :: s1 :: s2 :: rest => do
      let _ ← pair? 0 23 h1 h2
      let _ ← pair? 0 59 m1 m2
      let _ ← pair? 0 60 s1 s2
      match rest with
      | '.' :: c :: rest => if isDecimal c then some (rest.dropWhile isDecimal) else none
      | '.' :: [] => none
      | rest => some rest
  | _ => none

/-- Whether a word is nothing, or an offset from universal time. -/
def isOffset : List Char → Bool
  | [] => true
  | ['Z'] => true
  | ['z'] => true
  | [sign, h1, h2, ':', m1, m2] =>
      (sign == '+' || sign == '-') && (pair? 0 23 h1 h2).isSome && (pair? 0 59 m1 m2).isSome
  | _ => false

def isOffsetTime (word : List Char) : Bool :=
  match time? word with
  | some rest => isOffset rest
  | none => false

def isDate (word : List Char) : Bool :=
  match date? word with
  | some [] => true
  | _ => false

def datetime? (word : List Char) : Option Node :=
  let valid :=
    match date? word with
    | some [] => true
    | some (mark :: rest) => (mark == 'T' || mark == 't') && isOffsetTime rest
    | none =>
        match time? word with
        | some [] => true
        | _ => false
  if valid then some (.datetime (String.ofList word)) else none

def boolean? (word : List Char) : Option Node :=
  match String.ofList word with
  | "true" => some (.boolean true)
  | "false" => some (.boolean false)
  | _ => none

/-- The characters of the words that this module recognises. -/
def isWordChar (c : Char) : Bool :=
  c.isAlphanum || c == '+' || c == '-' || c == '_' || c == '.' || c == ':'

def word? (word : List Char) : Option Node :=
  boolean? word <|> special? word <|> datetime? word <|> integer? word <|> float? word

/-- A value that is one word, or a date and a time with a blank between them. -/
def scalar? (cs : List Char) : Option (Node × List Char) :=
  let word := cs.takeWhile isWordChar
  let rest := cs.dropWhile isWordChar
  let plain := (word? word).map fun node => (node, rest)
  match rest with
  | ' ' :: c :: tail =>
      if isDate word && isDecimal c then
        let time := (c :: tail).takeWhile isWordChar
        if isOffsetTime time then
          some (.datetime (String.ofList (word ++ ' ' :: time)), (c :: tail).dropWhile isWordChar)
        else none
      else plain
  | _ => plain

end Monomorph.Toml
