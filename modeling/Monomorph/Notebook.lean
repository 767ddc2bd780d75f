import Monomorph.Substitution

/-!
A notebook of named substitutions. A name that is mentioned for the first time stands
for the empty substitution.
-/

namespace Monomorph

structure Notebook where
  pages : OrderedMap String Substitution

namespace Notebook

inductive Command where
  | show
  | ofParameters (names : List String) (arguments : List Ty)
  | insert (name : String) (ty : Ty)
  | get (name : String)
  | apply (ty : Ty)
  /-- Compose with the substitution `other` and keep the result under `target`. -/
  | compose (other target : String)
  | agrees (other : String)

inductive Reply where
  | shown (substitution : Substitution)
  | found (ty : Option Ty)
  /-- A type and what became of it; `none` if nothing in it was replaced. -/
  | applied (ty : Ty) (result : Option Ty)
  | flag (value : Bool)

def empty : Notebook := ⟨∅⟩

def page (notebook : Notebook) (name : String) : Substitution :=
  (notebook.pages.get? name).getD ∅

def write (notebook : Notebook) (name : String) (substitution : Substitution) :
    Reply × Notebook :=
  (.shown substitution, ⟨notebook.pages.insert name substitution⟩)

/-- Carry out a command on the substitution of the given name. -/
def step (notebook : Notebook) (name : String) : Command → Reply × Notebook
  | .show => (.shown (notebook.page name), notebook)
  | .ofParameters names arguments => notebook.write name (.ofParameters names arguments)
  | .insert key ty => notebook.write name ((notebook.page name).insert key ty)
  | .get key => (.found ((notebook.page name).get? key), notebook)
  | .apply ty => (.applied ty ((notebook.page name).applied? ty), notebook)
  | .compose other target =>
      notebook.write target ((notebook.page name).compose (notebook.page other))
  | .agrees other => (.flag ((notebook.page name).agrees (notebook.page other)), notebook)

end Notebook

end Monomorph
