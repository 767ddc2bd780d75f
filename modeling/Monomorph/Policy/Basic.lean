/-!
How strictly requests are judged.
-/

namespace Monomorph

structure Policy where
  /-- The greatest depth an instance may have. -/
  maxDepth : Nat
  /-- Arguments that still mention a parameter are refused. -/
  closedOnly : Bool
  /-- Arguments must have the declared kind of their parameter, where it is known. -/
  kindChecked : Bool
deriving DecidableEq

def Policy.standard : Policy := ⟨128, true, true⟩

end Monomorph
