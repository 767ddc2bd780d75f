import Monomorph.Ty.Basic

/-!
Types as messages show them: `Map<string, T>`, `fn(int, *mut char) -> void`,
`[bool; 4]`. The text is for readers and does not tell every two types apart; names
that do are in `Monomorph.Symbol`.
-/

namespace Monomorph.Ty

def commas (items : List String) : String := ", ".intercalate items

mutual

def display : Ty → String
  | .prim primitive => primitive.keyword
  | .named name [] => name
  | .named name (arg :: args) => name ++ "<" ++ commas (displayAll (arg :: args)) ++ ">"
  | .param name => name
  | .ctor name _ => name
  | .app head args => display head ++ "<" ++ commas (displayAll args) ++ ">"
  | .func params result => "fn(" ++ commas (displayAll params) ++ ") -> " ++ display result
  | .ptr true target => "*mut " ++ display target
  | .ptr false target => "*" ++ display target
  | .array element (some length) => "[" ++ display element ++ "; " ++ toString length ++ "]"
  | .array element none => "[" ++ display element ++ "]"
  | .tuple elements => "(" ++ commas (displayAll elements) ++ ")"

def displayAll : List Ty → List String
  | [] => []
  | ty :: rest => display ty :: displayAll rest

end

theorem displayAll_eq_map (list : List Ty) : displayAll list = list.map display := by
  induction list with
  | nil => rfl
  | cons ty rest ih => simp [displayAll, ih]

end Monomorph.Ty
