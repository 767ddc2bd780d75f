import Monomorph.CompilationUnit.Merge

/-!
The units that exist. A unit starts out empty and changes by registrations, requests,
sweeps, hand-offs and merges, in any order; the units merged into it came about in the
same way. What holds of the empty unit and is kept by every change holds of all units.
-/

namespace Monomorph.CompilationUnit

/-- What can happen to a unit. -/
inductive Change where
  /-- The serial number is arbitrary: the declaration may be new, or any other unit may have it. -/
  | register (shared : SharedGeneric)
  | request (request : Request)
  | requestWithDefaults (request : Request)
  | sweep
  | takeArtifacts
  | takeFaults
  | merge (other : CompilationUnit)

def after (unit : CompilationUnit) : Change → CompilationUnit
  | .register shared => (unit.register shared).2
  | .request request => (unit.request request).2
  | .requestWithDefaults request => (unit.requestWithDefaults request).2
  | .sweep => unit.sweep.2
  | .takeArtifacts => unit.takeArtifacts.2
  | .takeFaults => unit.takeFaults.2
  | .merge other => unit.merge other

inductive Reachable : CompilationUnit → Prop
  | empty (traits : TraitAuthority) (policy : Policy) : Reachable (.empty traits policy)
  | change {unit : CompilationUnit} (change : Change) : Reachable unit →
      (∀ other, change = .merge other → Reachable other) → Reachable (unit.after change)

def afterAll (unit : CompilationUnit) (changes : List Change) : CompilationUnit :=
  changes.foldl after unit

/-- Only units that exist are merged. -/
def Lawful (changes : List Change) : Prop := ∀ other, Change.merge other ∈ changes → Reachable other

@[simp] theorem lawful_nil : Lawful [] := nofun

@[simp] theorem lawful_cons {change : Change} {rest : List Change} :
    Lawful (change :: rest) ↔
      (∀ other, change = .merge other → Reachable other) ∧ Lawful rest := by
  simp only [Lawful, List.mem_cons, or_imp, forall_and, eq_comm]

theorem Reachable.afterAll {unit : CompilationUnit} {changes : List Change}
    (reached : Reachable unit) (lawful : Lawful changes) : Reachable (unit.afterAll changes) := by
  induction changes generalizing unit with
  | nil => exact reached
  | cons change rest ih =>
    obtain ⟨merged, later⟩ := lawful_cons.mp lawful
    exact ih (reached.change change merged) later

section Boxes

/-- A generic of one parameter with a signature over it. -/
def box : SharedGeneric :=
  ⟨0, { Generic.bare "Box" with
    parameters := [⟨"T", [], none, none, none, none⟩]
    signature := some (.func [.param "T"] (.param "T")) }⟩

def boxOf (primitive : Primitive) : Change :=
  .request ⟨box.name, [.prim primitive], none, none⟩

def nestedBox (parent : Nat) (primitive : Primitive) : Change :=
  .request ⟨box.name, [.prim primitive], none, some parent⟩

/-- A unit that holds the artifact of its only instance. -/
def intBoxes : CompilationUnit :=
  (empty .lenient .standard).afterAll [.register box, boxOf .int, .sweep]

def boxHistory : List Change :=
  [.register box, boxOf .bool, .sweep, .takeArtifacts, boxOf .char, .merge intBoxes]

/-- A unit with one instance whose artifact was handed off, one that waits for its artifact,
and one that came by a merge together with its artifact. -/
def boxes : CompilationUnit := (empty .lenient .standard).afterAll boxHistory

theorem reachable_intBoxes : intBoxes.Reachable := by
  apply (Reachable.empty _ _).afterAll
  simp [boxOf]

theorem reachable_boxes : boxes.Reachable := by
  apply (Reachable.empty _ _).afterAll
  simp [boxHistory, boxOf, reachable_intBoxes]

end Boxes

end Monomorph.CompilationUnit
