import Monomorph.CompilationUnit.Basic

/-!
What a workspace answers to one command.
-/

namespace Monomorph

inductive Reply where
  | done
  | merged
  | noUnit
  | noGeneric
  /-- The unit cannot be given up while others hold it. -/
  | stillShared
  | policy (policy : Policy)
  | names (names : List String)
  | registered (generic : Generic)
  | fault (fault : Fault)
  /-- The declaration could not be drafted, so nothing was registered. -/
  | undrafted (fault : Fault)
  /-- Whether two registrations are the same, and whether they say the same. -/
  | sameness (same equal : Bool)
  | generic (generic : Option Generic)
  | outcome (outcome : Inquiry TraitQuestion (Except Fault Nat))
  | entry (entry : Option Instance)
  | entries (entries : List Instance)
  | comparison (comparison : Inquiry SubtypeQuestion Bool)
  | artifacts (artifacts : List Artifact)
  | artifact (artifact : Option Artifact)
  | held (count : Nat)
  | symbolGroups (groups : List (List String))
  | idGroups (groups : List (List Nat))
  | ids (ids : List Nat)
  | faults (faults : List Fault)
  | flag (value : Bool)
  | reports (reports : List Report)
  | handles (count : Nat)
  | tally (instances faults : Nat)

end Monomorph
