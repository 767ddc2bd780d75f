import Monomorph.Fault.Basic
import Monomorph.Generic.Basic

/-!
The declarations of a compilation unit, in the order they were registered. The first
declaration of a name keeps it.
-/

namespace Monomorph

structure Catalog where
  registered : List SharedGeneric

namespace Catalog

def empty : Catalog := ⟨[]⟩

def find? (catalog : Catalog) (name : String) : Option SharedGeneric :=
  catalog.registered.find? fun shared => shared.name == name

def generic? (catalog : Catalog) (name : String) : Option Generic :=
  (catalog.find? name).map SharedGeneric.generic

def names (catalog : Catalog) : List String := catalog.registered.map SharedGeneric.name

def size (catalog : Catalog) : Nat := catalog.registered.length

def register (catalog : Catalog) (shared : SharedGeneric) : Except Fault Catalog :=
  match catalog.find? shared.name with
  | some existing =>
      .error (.duplicateGeneric shared.name (shared.generic.span.map Span.extent)
        (existing.generic.span.map Span.extent))
  | none => .ok ⟨catalog.registered ++ [shared]⟩

end Catalog

end Monomorph
