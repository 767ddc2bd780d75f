import Monomorph.Generic.Basic
import Monomorph.Inquiry
import Monomorph.OrderedMap

/-!
Which types implement which traits. Requests put their questions to a `TraitAuthority`,
whatever decides them. The bounds of a parameter and the traits of a where clause are asked
about in different ways, and an authority need not decide both by one relation. One made
from a relation does; `ImplTable` is a relation that is recorded entry by entry.
-/

namespace Monomorph

structure TraitAuthority where
  /-- Does the type satisfy every one of the bounds? -/
  satisfies : Ty → List Bound → Bool
  /-- Does the type implement the trait? -/
  implements : Ty → String → Bool

inductive TraitQuestion where
  | bounds (subject : Ty) (bounds : List Bound)
  | trait (subject : Ty) (trait : String)
deriving DecidableEq

namespace TraitAuthority

/-- A bound is satisfied where its trait is implemented. -/
def ofRelation (implements : Ty → String → Bool) : TraitAuthority where
  satisfies subject bounds := bounds.all fun bound => implements subject bound.trait
  implements := implements

/-- Every type implements every trait. -/
def lenient : TraitAuthority := ofRelation fun _ _ => true

def answer (traits : TraitAuthority) : TraitQuestion → Bool
  | .bounds subject bounds => traits.satisfies subject bounds
  | .trait subject trait => traits.implements subject trait

def ask (traits : TraitAuthority) (question : TraitQuestion) : Inquiry TraitQuestion Bool :=
  .ask traits.answer question

end TraitAuthority

/-- How an implementation for a type constructor applies to its applications. -/
inductive Reach where
  | always
  /-- Only where every argument implements the trait too. -/
  | whenArguments
deriving DecidableEq

inductive ImplEntry where
  | exact (subject : Ty) (trait : String)
  | constructor (name trait : String) (reach : Reach)

structure ImplTable where
  /-- The traits recorded for one type each. -/
  exact : OrderedMap Ty (OrderedMap String Unit)
  /-- What the last entry for a constructor and a trait said. -/
  constructors : OrderedMap String (OrderedMap String Reach)

namespace ImplTable

def empty : ImplTable := ⟨∅, ∅⟩

def add (table : ImplTable) : ImplEntry → ImplTable
  | .exact subject trait => { table with exact := table.exact.insertIn subject trait () }
  | .constructor name trait reach =>
      { table with constructors := table.constructors.insertIn name trait reach }

def ofEntries (entries : List ImplEntry) : ImplTable := entries.foldl add empty

def count (table : ImplTable) : Nat := table.exact.sizeIn + table.constructors.sizeIn

/-- The type has an entry of its own for the trait. -/
def records (table : ImplTable) (subject : Ty) (trait : String) : Bool :=
  (table.exact.getIn? subject trait).isSome

mutual

/-- A nominal type without an entry of its own goes by its constructor's. -/
def implements (table : ImplTable) (trait : String) : Ty → Bool
  | .named name args =>
      table.records (.named name args) trait ||
        match table.constructors.getIn? name trait with
        | some .always => true
        | some .whenArguments => implementsAll table trait args
        | none => false
  | subject => table.records subject trait

def implementsAll (table : ImplTable) (trait : String) : List Ty → Bool
  | [] => true
  | subject :: rest => implements table trait subject && implementsAll table trait rest

end

def authority (table : ImplTable) : TraitAuthority :=
  .ofRelation fun subject trait => table.implements trait subject

end ImplTable

end Monomorph
