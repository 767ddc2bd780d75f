import Monomorph.CompilationUnit.Basic

/-!
Merging one compilation unit into another. A declaration of the other unit is
accepted when its name is free or already names the very same registration.
Instances and artifacts of accepted generics are carried over; those of a generic
that conflicts with one registered here were never judged against it and are dropped.
-/

namespace Monomorph.CompilationUnit

/-- Register a declaration of another unit; a conflict is recorded. The second part says
which names are accepted so far. -/
def accept (state : CompilationUnit × List String) (shared : SharedGeneric) :
    CompilationUnit × List String :=
  let (unit, accepted) := state
  if unit.catalog.find? shared.name = some shared then (unit, accepted ++ [shared.name])
  else
    match unit.register shared with
    | (.ok _, unit) => (unit, accepted ++ [shared.name])
    | (.error _, unit) => (unit, accepted)

def merge (unit other : CompilationUnit) : CompilationUnit :=
  let (registered, accepted) := other.catalog.registered.foldl accept (unit, [])
  let (absorbed, renumbering) := registered.table.absorb other.table accepted.contains
  { registered with
    table := absorbed.markAbsorbed renumbering other.instances
    store := registered.store.absorb other.store renumbering }

end Monomorph.CompilationUnit
