import Monomorph.Policy.Basic
import Monomorph.Toml.Document

/-!
The policy of a settings file, which is the entry `generics` of a TOML document. What
the file leaves out is as in the standard policy, and keys that mean nothing here are
passed over.
-/

namespace Monomorph.Policy

def natural? : Toml.Node → Option Nat
  | .integer value => if 0 ≤ value then some value.toNat else none
  | _ => none

def flag? : Toml.Node → Option Bool
  | .boolean value => some value
  | _ => none

/-- The policy with the given settings, each in its place if it is there. -/
def ofNodes? (maxDepth closedOnly kindChecked : Option Toml.Node) : Option Policy := do
  let maxDepth ← maxDepth.elim (some standard.maxDepth) natural?
  let closedOnly ← closedOnly.elim (some standard.closedOnly) flag?
  let kindChecked ← kindChecked.elim (some standard.kindChecked) flag?
  some ⟨maxDepth, closedOnly, kindChecked⟩

/-- Settings stand in a table under their names, or in an array in their order. A date
counts as a table without any of the names. -/
def ofNode? : Toml.Node → Option Policy
  | .table _ entries =>
      let entries : Toml.Entries := entries
      ofNodes? (entries.get? "max_expansion_depth") (entries.get? "reject_open_arguments")
        (entries.get? "check_kinds")
  | .array elements => ofNodes? elements[0]? elements[1]? elements[2]?
  | .datetime _ => some standard
  | _ => none

def ofSettings? (text : String) : Option Policy := do
  let entries ← Toml.document? text
  (entries.get? "generics").elim (some standard) ofNode?

end Monomorph.Policy
