import Monomorph.OrderedMap
import Monomorph.Ty.Subst

/-!
Substitutions as values: finite maps from parameter names to types, applied
simultaneously and composed in sequence.
-/

namespace Monomorph

/-- Entries keep the order in which their names were first set. -/
abbrev Substitution := OrderedMap String Ty

namespace Substitution

/-- Names paired with arguments as far as both go. -/
def ofParameters (names : List String) (arguments : List Ty) : Substitution :=
  .ofList (names.zip arguments)

def applied? (σ : Substitution) (ty : Ty) : Option Ty := ty.subst? σ.get?

def apply (σ : Substitution) (ty : Ty) : Ty := ty.subst σ.get?

/-- Set a name that is not set yet. -/
def addEntry (σ : Substitution) (entry : String × Ty) : Substitution :=
  if σ.contains entry.1 then σ else σ.insert entry.1 entry.2

/-- First `σ`, then `τ`: the types of `σ` with `τ` applied, then the entries of `τ`
under names that are not set by then. -/
def compose (σ τ : Substitution) : Substitution :=
  τ.entries.foldl addEntry
    (σ.entries.foldl (fun result entry => result.insert entry.1 (apply τ entry.2)) ∅)

/-- Whether two substitutions map the same names to the same types, in any order. -/
def agrees (σ τ : Substitution) : Bool :=
  σ.size == τ.size && σ.entries.all fun entry => τ.get? entry.1 == some entry.2

end Substitution

end Monomorph
