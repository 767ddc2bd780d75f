import Mathlib.Data.List.Basic
import Monomorph.Symbol

/-!
A symbol determines what it was made from. A token is read from the left: a lexeme up
to the first structural character that is not escaped, then a bracket or nothing, then
what the bracket holds. The lexeme and the bracket settle the form of the type, and a
token ends where the text behind it begins, since that text starts with a character
that no token can go on with.
-/

namespace Monomorph.Symbol

/-- A name in front of such a text ends where the text begins. -/
def Delimited (text : List Char) : Prop := ∀ c ∈ text.head?, c ∈ structural ∧ c ≠ '\\'

/-- The structural characters that can stand behind a whole token. An opening bracket is
none of them, since it would continue the token. -/
def trailers : List Char := [':', ',', ';', ')', ']']

def Trailing (text : List Char) : Prop := ∀ c ∈ text.head?, c ∈ trailers

@[simp] theorem delimited_cons (c : Char) (rest : List Char) :
    Delimited (c :: rest) ↔ c ∈ structural ∧ c ≠ '\\' := by
  simp [Delimited]

theorem trailing_nil : Trailing [] := by
  simp [Trailing]

@[simp] theorem trailing_cons (c : Char) (rest : List Char) :
    Trailing (c :: rest) ↔ c ∈ trailers := by
  simp [Trailing]

theorem Trailing.delimited {text : List Char} (trailing : Trailing text) : Delimited text := by
  intro c first
  have member := trailing c first
  simp only [trailers, List.mem_cons, List.not_mem_nil, or_false] at member
  rcases member with rfl | rfl | rfl | rfl | rfl <;> decide

section Lexemes

theorem escape_append_inj (xs ys : List Char) {r s : List Char} (endR : Delimited r)
    (endS : Delimited s) (same : escape xs ++ r = escape ys ++ s) : xs = ys ∧ r = s := by
  have backslash : '\\' ∈ structural := by decide
  induction xs generalizing ys with
  | nil =>
    cases ys with
    | nil => exact ⟨rfl, same⟩
    | cons y ys =>
      simp only [escape, List.nil_append] at same
      subst same
      by_cases structured : y ∈ structural
      · simp [structured] at endR
      · simp [structured] at endR
  | cons x xs ih =>
    cases ys with
    | nil =>
      simp only [escape, List.nil_append] at same
      subst same
      by_cases structured : x ∈ structural
      · simp [structured] at endS
      · simp [structured] at endS
    | cons y ys =>
      simp only [escape] at same
      split at same <;> split at same
      next =>
        simp only [List.cons_append, List.cons.injEq, true_and] at same
        obtain ⟨tails, rests⟩ := ih ys same.2
        exact ⟨by rw [same.1, tails], rests⟩
      next plain =>
        simp only [List.cons_append, List.cons.injEq] at same
        exact absurd (same.1 ▸ backslash) plain
      next plain _ =>
        simp only [List.cons_append, List.cons.injEq] at same
        exact absurd (same.1 ▸ backslash) plain
      next =>
        simp only [List.cons_append, List.cons.injEq] at same
        obtain ⟨tails, rests⟩ := ih ys same.2
        exact ⟨by rw [same.1, tails], rests⟩

/-- The mark is no escaped character, so a name without it does not begin like one with it. -/
theorem mark_ne_escape (text rest : List Char) {r : List Char} (endR : Delimited r) :
    escape text ++ r ≠ '\\' :: '~' :: rest := by
  intro same
  cases text with
  | nil =>
    simp only [escape, List.nil_append] at same
    simp [same] at endR
  | cons c text =>
    simp only [escape] at same
    split at same
    next structured =>
      simp only [List.cons_append, List.cons.injEq, true_and] at same
      rw [same.1] at structured
      exact absurd structured (by decide)
    next plain =>
      simp only [List.cons_append, List.cons.injEq] at same
      rw [same.1] at plain
      exact plain (by decide)

def isMarked (name : String) : Bool := name.isEmpty || (Primitive.ofKeyword? name).isSome

def lexeme (marked : Bool) (text : List Char) : List Char :=
  if marked then '\\' :: '~' :: escape text else escape text

theorem ident_eq_lexeme (name : String) : ident name = lexeme (isMarked name) name.toList := rfl

theorem isMarked_keyword (primitive : Primitive) : isMarked primitive.keyword = true := by
  cases primitive <;> decide

theorem lexeme_append_inj {marked marked' : Bool} {text text' r s : List Char}
    (endR : Delimited r) (endS : Delimited s)
    (same : lexeme marked text ++ r = lexeme marked' text' ++ s) :
    marked = marked' ∧ text = text' ∧ r = s := by
  cases marked <;> cases marked'
  · exact ⟨rfl, escape_append_inj text text' endR endS same⟩
  · exact absurd same (mark_ne_escape text _ endR)
  · exact absurd same.symm (mark_ne_escape text' _ endS)
  · simp only [lexeme, if_true, List.cons_append, List.cons.injEq, true_and] at same
    exact ⟨rfl, escape_append_inj text text' endR endS same⟩

theorem ident_append_inj {m n : String} {r s : List Char} (endR : Delimited r)
    (endS : Delimited s) (same : ident m ++ r = ident n ++ s) : m = n ∧ r = s := by
  rw [ident_eq_lexeme, ident_eq_lexeme] at same
  obtain ⟨_, names, rests⟩ := lexeme_append_inj endR endS same
  exact ⟨String.toList_inj.mp names, rests⟩

end Lexemes

section Openings

/-- How a token begins: a lexeme, and the bracket behind it if there is one. -/
structure Opening where
  marked : Bool
  text : List Char
  bracket : List Char

def opening : Ty → Opening
  | .prim primitive => ⟨false, primitive.keyword.toList, []⟩
  | .named name [] => ⟨isMarked name, name.toList, []⟩
  | .named name (_ :: _) => ⟨isMarked name, name.toList, ['[']⟩
  | .param _ => ⟨false, "param".toList, ['(']⟩
  | .ctor _ _ => ⟨false, "ctor".toList, ['(']⟩
  | .app _ _ => ⟨false, "app".toList, ['(']⟩
  | .func _ _ => ⟨false, "fn".toList, ['(']⟩
  | .ptr true _ => ⟨false, "mutptr".toList, ['(']⟩
  | .ptr false _ => ⟨false, "ptr".toList, ['(']⟩
  | .array _ (some _) => ⟨false, "array".toList, ['(']⟩
  | .array _ none => ⟨false, "slice".toList, ['(']⟩
  | .tuple _ => ⟨false, "tuple".toList, ['(']⟩

/-- The rest of a token behind its opening. -/
def body : Ty → List Char
  | .prim _ => []
  | .named _ [] => []
  | .named _ (arg :: args) => tokens (arg :: args) ++ [']']
  | .param name => ident name ++ [')']
  | .ctor name arity => ident name ++ '/' :: (digits arity ++ [')'])
  | .app head args => token head ++ ';' :: (tokens args ++ [')'])
  | .func params result => tokens params ++ ')' :: '-' :: '>' :: token result
  | .ptr _ target => token target ++ [')']
  | .array element (some length) => token element ++ ';' :: (digits length ++ [')'])
  | .array element none => token element ++ [')']
  | .tuple elements => tokens elements ++ [')']

theorem token_eq (ty : Ty) :
    token ty =
      lexeme (opening ty).marked (opening ty).text ++ ((opening ty).bracket ++ body ty) := by
  cases ty with
  | prim primitive =>
    cases primitive <;> simp [token, opening, body, lexeme, escape, structural, Primitive.keyword]
  | named name args => cases args <;> simp [token, opening, body, ident_eq_lexeme]
  | ptr mutable target =>
    cases mutable <;> simp [token, bracketed, opening, body, lexeme, escape, structural]
  | array element length =>
    cases length <;> simp [token, bracketed, opening, body, lexeme, escape, structural]
  | _ => simp [token, bracketed, opening, body, lexeme, escape, structural]

theorem bracket_cases (ty : Ty) :
    (opening ty).bracket = [] ∧ body ty = [] ∨
      (opening ty).bracket = ['['] ∨ (opening ty).bracket = ['('] := by
  fun_cases opening ty <;> simp [body]

theorem delimited_body (ty : Ty) {r : List Char} (endR : Trailing r) :
    Delimited ((opening ty).bracket ++ (body ty ++ r)) := by
  rcases bracket_cases ty with ⟨none, empty⟩ | square | round
  · rw [none, empty]
    exact endR.delimited
  · simp [square, structural]
  · simp [round, structural]

theorem bracket_eq {a b : Ty} {r s : List Char} (endR : Trailing r) (endS : Trailing s)
    (same : (opening a).bracket ++ (body a ++ r) = (opening b).bracket ++ (body b ++ s)) :
    (opening a).bracket = (opening b).bracket := by
  rcases bracket_cases a with ⟨noneA, emptyA⟩ | squareA | roundA <;>
    rcases bracket_cases b with ⟨noneB, emptyB⟩ | squareB | roundB
  · rw [noneA, noneB]
  · rw [noneA, emptyA, squareB] at same
    simp [show r = _ from same, trailers] at endR
  · rw [noneA, emptyA, roundB] at same
    simp [show r = _ from same, trailers] at endR
  · rw [noneB, emptyB, squareA] at same
    simp [show s = _ from same.symm, trailers] at endS
  · rw [squareA, squareB]
  · simp [squareA, roundB] at same
  · rw [noneB, emptyB, roundA] at same
    simp [show s = _ from same.symm, trailers] at endS
  · simp [roundA, squareB] at same
  · rw [roundA, roundB]

/-- Equal tokens begin alike, whatever stands behind them. -/
theorem opening_append_inj {a b : Ty} {r s : List Char} (endR : Trailing r) (endS : Trailing s)
    (same : token a ++ r = token b ++ s) :
    opening a = opening b ∧ body a ++ r = body b ++ s := by
  rw [token_eq, token_eq, List.append_assoc, List.append_assoc, List.append_assoc,
    List.append_assoc] at same
  obtain ⟨marks, texts, rests⟩ :=
    lexeme_append_inj (delimited_body a endR) (delimited_body b endS) same
  have brackets := bracket_eq endR endS rests
  rw [brackets] at rests
  refine ⟨?_, List.append_cancel_left rests⟩
  cases first : opening a
  cases second : opening b
  simp_all

theorem opening_ne_nil (ty : Ty) : (opening ty).marked = true ∨ (opening ty).text ≠ [] := by
  cases ty with
  | prim primitive => cases primitive <;> simp [opening, Primitive.keyword]
  | named name args =>
    by_cases empty : name = ""
    · cases args <;> simp [opening, isMarked, empty]
    · cases args <;> simp [opening, empty]
  | ptr mutable target => cases mutable <;> simp [opening]
  | array element length => cases length <;> simp [opening]
  | _ => simp [opening]

theorem token_ne_cons (ty : Ty) {r : List Char} (endR : Trailing r) {c : Char}
    (trailing : c ∈ trailers) (rest : List Char) : token ty ++ r ≠ c :: rest := by
  intro same
  have follows : Trailing (c :: rest) := (trailing_cons c rest).mpr trailing
  have lexemes : lexeme (opening ty).marked (opening ty).text ++
      ((opening ty).bracket ++ (body ty ++ r)) = lexeme false [] ++ (c :: rest) := by
    rw [← List.append_assoc, ← List.append_assoc, List.append_assoc _ _ (body ty), ← token_eq, same]
    rfl
  obtain ⟨unmarked, empty, _⟩ :=
    lexeme_append_inj (delimited_body ty endR) follows.delimited lexemes
  rcases opening_ne_nil ty with marked | full
  · rw [marked] at unmarked
    cases unmarked
  · exact full empty

/-- Types of the same form, which may differ in what their brackets hold. -/
inductive Alike : Ty → Ty → Prop
  | prim (p) : Alike (.prim p) (.prim p)
  | bare (name) : Alike (.named name []) (.named name [])
  | applied (name x xs y ys) : Alike (.named name (x :: xs)) (.named name (y :: ys))
  | param (m n) : Alike (.param m) (.param n)
  | ctor (m j n k) : Alike (.ctor m j) (.ctor n k)
  | app (g xs h ys) : Alike (.app g xs) (.app h ys)
  | func (ps t qs u) : Alike (.func ps t) (.func qs u)
  | ptr (mutable t u) : Alike (.ptr mutable t) (.ptr mutable u)
  | array (t j u k) : Alike (.array t (some j)) (.array u (some k))
  | slice (t u) : Alike (.array t none) (.array u none)
  | tuple (xs ys) : Alike (.tuple xs) (.tuple ys)

/-- A primitive type and a name that reads like it differ in the mark. All other forms
differ in the bracket or in the word before it. -/
theorem alike_of_opening_eq {a b : Ty} (same : opening a = opening b) : Alike a b := by
  fun_cases opening a <;> fun_cases opening b <;> simp [opening, String.toList_inj] at same
  case case1.case1 p q =>
    rw [Primitive.keyword_injective same]
    exact .prim q
  case case1.case2 p name =>
    rw [← same.2, isMarked_keyword] at same
    cases same.1
  case case2.case1 name p =>
    rw [same.2, isMarked_keyword] at same
    cases same.1
  case case2.case2 name other =>
    rw [same.2]
    exact .bare other
  case case3.case3 name x xs other y ys =>
    rw [same.2]
    exact .applied other x xs y ys
  all_goals constructor

end Openings

section Reading

theorem digits_injective {m n : Nat} (same : digits m = digits n) : m = n := by
  rw [← Nat.ofDigitChars_ten_toDigits (n := m), ← Nat.ofDigitChars_ten_toDigits (n := n)]
  exact congrArg (Nat.ofDigitChars 10 · 0) same

theorem takeWhile_digits (n : Nat) (rest : List Char) :
    (digits n ++ ')' :: rest).takeWhile Char.isDigit = digits n := by
  have decimal : ∀ c ∈ digits n, c.isDigit = true := fun c member =>
    Nat.isDigit_of_mem_toDigits (by decide) (by decide) member
  rw [List.takeWhile_append_of_pos decimal]
  simp

theorem digits_append_inj {m n : Nat} {r s : List Char}
    (same : digits m ++ ')' :: r = digits n ++ ')' :: s) : m = n ∧ r = s := by
  have numbers : digits m = digits n := by
    rw [← takeWhile_digits m r, ← takeWhile_digits n s, same]
  rw [numbers] at same
  exact ⟨digits_injective numbers, (List.cons.inj (List.append_cancel_left same)).2⟩

/-- The token of a type can be told from every other token, and so can its end. -/
def Readable (ty : Ty) : Prop :=
  ∀ {other : Ty} {r s : List Char}, Trailing r → Trailing s →
    token ty ++ r = token other ++ s → ty = other ∧ r = s

/-- Tokens that each follow the same character. -/
def separated (mark : Char) (list : List Ty) : List Char := list.flatMap (mark :: token ·)

theorem suffix_eq_separated (list : List Ty) : suffix list = separated ':' list := by
  induction list with
  | nil => rfl
  | cons ty rest ih => simp [suffix, separated, ih]

theorem tokens_cons (ty : Ty) (rest : List Ty) :
    tokens (ty :: rest) = token ty ++ separated ',' rest := by
  induction rest generalizing ty with
  | nil => simp [tokens, separated]
  | cons next rest ih => simp [tokens, separated, ih]

theorem trailing_separated {mark : Char} (trailing : mark ∈ trailers)
    (list : List Ty) {r : List Char} (endR : Trailing r) : Trailing (separated mark list ++ r) := by
  cases list with
  | nil => exact endR
  | cons ty rest => exact (trailing_cons mark _).mpr trailing

theorem separated_append_inj {mark : Char} (trailing : mark ∈ trailers)
    {xs : List Ty} (readable : ∀ x ∈ xs, Readable x) {ys : List Ty} {r s : List Char}
    (endR : Trailing r) (endS : Trailing s) (stopR : mark ∉ r.head?) (stopS : mark ∉ s.head?)
    (same : separated mark xs ++ r = separated mark ys ++ s) : xs = ys ∧ r = s := by
  induction xs generalizing ys with
  | nil =>
    cases ys with
    | nil => exact ⟨rfl, same⟩
    | cons y ys =>
      change r = mark :: _ at same
      exact absurd (by simp [same]) stopR
  | cons x xs ih =>
    cases ys with
    | nil =>
      change mark :: _ = s at same
      exact absurd (by simp [← same]) stopS
    | cons y ys =>
      simp only [separated, List.flatMap_cons, List.cons_append, List.append_assoc,
        List.cons.injEq, true_and] at same
      obtain ⟨heads, tails⟩ := readable x (by simp) (trailing_separated trailing xs endR)
        (trailing_separated trailing ys endS) same
      obtain ⟨rests, ends⟩ := ih (fun other member => readable other (by simp [member])) tails
      exact ⟨by rw [heads, rests], ends⟩

/-- A list of tokens is read up to the bracket that closes it. -/
theorem tokens_append_inj {close : Char} (closing : close ∈ [')', ']']) {xs : List Ty}
    (readable : ∀ x ∈ xs, Readable x) {ys : List Ty} {r s : List Char}
    (same : tokens xs ++ close :: r = tokens ys ++ close :: s) : xs = ys ∧ r = s := by
  have trailing : close ∈ trailers := by
    simp only [List.mem_cons, List.not_mem_nil, or_false] at closing
    rcases closing with rfl | rfl <;> decide
  have noComma : ∀ rest : List Char, ',' ∉ (close :: rest).head? := by
    intro rest first
    simp only [List.head?_cons, Option.mem_some_iff] at first
    rw [first] at closing
    exact absurd closing (by decide)
  have ends : ∀ rest : List Char, Trailing (close :: rest) := fun rest =>
    (trailing_cons close rest).mpr trailing
  have comma : ',' ∈ trailers := by decide
  cases xs with
  | nil =>
    cases ys with
    | nil => exact ⟨rfl, (List.cons.inj same).2⟩
    | cons y ys =>
      rw [tokens_cons, List.append_assoc] at same
      exact absurd same.symm (token_ne_cons y (trailing_separated comma ys (ends s)) trailing r)
  | cons x xs =>
    cases ys with
    | nil =>
      rw [tokens_cons, List.append_assoc] at same
      exact absurd same (token_ne_cons x (trailing_separated comma xs (ends r)) trailing s)
    | cons y ys =>
      rw [tokens_cons, tokens_cons, List.append_assoc, List.append_assoc] at same
      obtain ⟨heads, tails⟩ := readable x (by simp) (trailing_separated comma xs (ends r))
        (trailing_separated comma ys (ends s)) same
      obtain ⟨rests, closed⟩ := separated_append_inj comma
        (fun other member => readable other (by simp [member])) (ends r) (ends s) (noComma r)
        (noComma s) tails
      exact ⟨by rw [heads, rests], (List.cons.inj closed).2⟩

/-- With the opening out of the way, a type has to be read off its body. -/
theorem readable_of_alike {ty : Ty}
    (read : ∀ {other : Ty} {r s : List Char}, Trailing r → Trailing s → Alike ty other →
      body ty ++ r = body other ++ s → ty = other ∧ r = s) : Readable ty := by
  intro other r s endR endS same
  obtain ⟨openings, bodies⟩ := opening_append_inj endR endS same
  exact read endR endS (alike_of_opening_eq openings) bodies

theorem readable (ty : Ty) : Readable ty := by
  induction ty using Ty.induction with
  | prim primitive =>
    apply readable_of_alike
    intro _ r s _ _ alike bodies
    cases alike
    exact ⟨rfl, bodies⟩
  | named name args ih =>
    apply readable_of_alike
    intro _ r s _ _ alike bodies
    cases alike with
    | bare => exact ⟨rfl, bodies⟩
    | applied _ x xs y ys =>
      simp only [body, List.append_assoc, List.singleton_append] at bodies
      obtain ⟨arguments, rests⟩ := tokens_append_inj (by decide) ih bodies
      exact ⟨by rw [arguments], rests⟩
  | param name =>
    apply readable_of_alike
    intro _ r s _ _ alike bodies
    cases alike
    simp only [body, List.append_assoc, List.singleton_append] at bodies
    obtain ⟨names, rests⟩ := ident_append_inj (by simp [structural]) (by simp [structural]) bodies
    exact ⟨by rw [names], (List.cons.inj rests).2⟩
  | ctor name arity =>
    apply readable_of_alike
    intro _ r s _ _ alike bodies
    cases alike
    simp only [body, List.append_assoc, List.cons_append] at bodies
    obtain ⟨names, numbers⟩ := ident_append_inj (by simp [structural]) (by simp [structural]) bodies
    obtain ⟨arities, rests⟩ := digits_append_inj (List.cons.inj numbers).2
    exact ⟨by rw [names, arities], rests⟩
  | app head args ihHead ihArgs =>
    apply readable_of_alike
    intro _ r s _ _ alike bodies
    cases alike
    simp only [body, List.append_assoc, List.cons_append] at bodies
    obtain ⟨heads, lists⟩ := ihHead (by simp [trailers]) (by simp [trailers]) bodies
    obtain ⟨arguments, rests⟩ := tokens_append_inj (by decide) ihArgs (List.cons.inj lists).2
    exact ⟨by rw [heads, arguments], rests⟩
  | func params result ihParams ihResult =>
    apply readable_of_alike
    intro _ r s endR endS alike bodies
    cases alike
    simp only [body, List.append_assoc, List.cons_append] at bodies
    obtain ⟨parameters, results⟩ := tokens_append_inj (by decide) ihParams bodies
    -- The result has no bracket of its own: its token ends where the whole token does.
    obtain ⟨types, rests⟩ := ihResult endR endS (List.cons.inj (List.cons.inj results).2).2
    exact ⟨by rw [parameters, types], rests⟩
  | ptr mutable target ih =>
    apply readable_of_alike
    intro _ r s _ _ alike bodies
    cases alike
    simp only [body, List.append_assoc, List.singleton_append] at bodies
    obtain ⟨targets, rests⟩ := ih (by simp [trailers]) (by simp [trailers]) bodies
    exact ⟨by rw [targets], (List.cons.inj rests).2⟩
  | array element length ih =>
    apply readable_of_alike
    intro _ r s _ _ alike bodies
    cases alike with
    | array =>
      simp only [body, List.append_assoc, List.cons_append] at bodies
      obtain ⟨elements, numbers⟩ := ih (by simp [trailers]) (by simp [trailers]) bodies
      obtain ⟨lengths, rests⟩ := digits_append_inj (List.cons.inj numbers).2
      exact ⟨by rw [elements, lengths], rests⟩
    | slice =>
      simp only [body, List.append_assoc, List.singleton_append] at bodies
      obtain ⟨elements, rests⟩ := ih (by simp [trailers]) (by simp [trailers]) bodies
      exact ⟨by rw [elements], (List.cons.inj rests).2⟩
  | tuple elements ih =>
    apply readable_of_alike
    intro _ r s _ _ alike bodies
    cases alike
    simp only [body, List.append_assoc, List.singleton_append] at bodies
    obtain ⟨members, rests⟩ := tokens_append_inj (by decide) ih bodies
    exact ⟨by rw [members], rests⟩

end Reading

section Injectivity

theorem ofTy_inj {a b : Ty} (same : ofTy a = ofTy b) : a = b := by
  have tokens : token a ++ [] = token b ++ [] := by
    rw [List.append_nil, List.append_nil]
    exact String.ofList_injective same
  exact (readable a trailing_nil trailing_nil tokens).1

theorem name_inj {generic other : String} {arguments others : List Ty}
    (same : name generic arguments = name other others) :
    generic = other ∧ arguments = others := by
  have colon : ':' ∈ trailers := by decide
  have texts : ident generic ++ (separated ':' arguments ++ []) =
      ident other ++ (separated ':' others ++ []) := by
    rw [List.append_nil, List.append_nil, ← suffix_eq_separated, ← suffix_eq_separated]
    exact String.ofList_injective same
  obtain ⟨generics, suffixes⟩ := ident_append_inj
    (trailing_separated colon arguments trailing_nil).delimited
    (trailing_separated colon others trailing_nil).delimited texts
  obtain ⟨lists, _⟩ := separated_append_inj colon (fun ty _ => readable ty) trailing_nil
    trailing_nil (by simp) (by simp) suffixes
  exact ⟨generics, lists⟩

/-- Instances share a symbol only if they are the same, whatever their names are made of,
and types share a token only if they are equal. -/
theorem symbols_unique :
    (∀ (generic other : String) (arguments others : List Ty),
      name generic arguments = name other others ↔ generic = other ∧ arguments = others) ∧
    ∀ a b : Ty, ofTy a = ofTy b ↔ a = b := by
  constructor
  · intro generic other arguments others
    constructor
    · exact name_inj
    · intro same
      rw [same.1, same.2]
  · intro a b
    constructor
    · exact ofTy_inj
    · intro same
      rw [same]

end Injectivity

end Monomorph.Symbol
