import Monomorph.Ty.Basic

/-!
Symbol names of instances. A name is the generic's name followed by one token for
each argument, as in `Map:string:List[int]`. Every composite token is bracketed,
and characters that carry structure are escaped inside names, so a symbol
determines the generic and the arguments it was made from.
-/

namespace Monomorph.Symbol

/-- The characters that carry structure in a symbol. -/
def structural : List Char := ['\\', ':', '[', ']', '(', ')', ',', ';', '/']

def escape : List Char → List Char
  | [] => []
  | c :: rest => if c ∈ structural then '\\' :: c :: escape rest else c :: escape rest

/-- A name inside a symbol. The mark `\~` stands before a name that would otherwise
read as a primitive type or as nothing at all. -/
def ident (name : String) : List Char :=
  if name.isEmpty || (Primitive.ofKeyword? name).isSome then
    '\\' :: '~' :: escape name.toList
  else
    escape name.toList

def digits (n : Nat) : List Char := Nat.toDigits 10 n

/-- A word and its contents in round brackets. -/
def bracketed (word : String) (contents : List Char) : List Char :=
  word.toList ++ '(' :: (contents ++ [')'])

mutual

def token : Ty → List Char
  | .prim primitive => primitive.keyword.toList
  | .named name [] => ident name
  | .named name (arg :: args) => ident name ++ '[' :: (tokens (arg :: args) ++ [']'])
  | .param name => bracketed "param" (ident name)
  | .ctor name arity => bracketed "ctor" (ident name ++ '/' :: digits arity)
  | .app head args => bracketed "app" (token head ++ ';' :: tokens args)
  | .func params result => bracketed "fn" (tokens params) ++ '-' :: '>' :: token result
  | .ptr true target => bracketed "mutptr" (token target)
  | .ptr false target => bracketed "ptr" (token target)
  | .array element (some length) => bracketed "array" (token element ++ ';' :: digits length)
  | .array element none => bracketed "slice" (token element)
  | .tuple elements => bracketed "tuple" (tokens elements)

/-- Tokens divided by commas. -/
def tokens : List Ty → List Char
  | [] => []
  | [ty] => token ty
  | ty :: next :: rest => token ty ++ ',' :: tokens (next :: rest)

end

/-- Tokens that each follow a colon. -/
def suffix : List Ty → List Char
  | [] => []
  | ty :: rest => ':' :: (token ty ++ suffix rest)

def name (generic : String) (arguments : List Ty) : String :=
  String.ofList (ident generic ++ suffix arguments)

def ofTy (ty : Ty) : String := String.ofList (token ty)

end Monomorph.Symbol
