import Monomorph.Proofs.Admission
import Monomorph.Proofs.Replacement

/-!
Code generation sees closed types only. Where open arguments are refused, every instance of a
unit has closed arguments: given ones and those filled in from defaults are judged alike, and a
merge carries over only what was judged so elsewhere. An instance has an argument for each of its
parameters, so a signature over the parameters is closed once the arguments are in place, also
where they are joined with what they are applied to.
-/

namespace Monomorph

section Specialising

theorem Ty.references_subst_eq_nil {σ : String → Option Ty} {ty : Ty}
    (mapped : ∀ name ∈ ty.references, ∃ replacement, σ name = some replacement ∧
      replacement.references = []) : (ty.subst σ).references = [] := by
  rw [references_subst, List.flatMap_eq_nil_iff]
  intro name mention
  obtain ⟨replacement, found, closed⟩ := mapped name mention
  rw [referencesFor, subst_param, found]
  exact closed

/-- A name stands for one of the arguments if there are enough of them. -/
theorem positional_of_mem {names : List String} {arguments : List Ty}
    (enough : names.length ≤ arguments.length) {name : String} (member : name ∈ names) :
    ∃ argument ∈ arguments, positional names arguments name = some argument := by
  obtain ⟨place, found⟩ : ∃ place, names.idxOf? name = some place :=
    Option.isSome_iff_exists.mp (List.isSome_idxOf?.mpr member)
  obtain ⟨inside, _⟩ := List.idxOf?_eq_some_iff.mp found
  have given : arguments[place]? = some arguments[place] := List.getElem?_eq_getElem _
  refine ⟨arguments[place], List.mem_of_getElem? given, ?_⟩
  rw [positional, found, Option.bind_some, given]

/-- A type over names that stand for closed arguments becomes closed. -/
theorem references_positional {names : List String} {arguments : List Ty}
    (enough : names.length ≤ arguments.length)
    (closed : ∀ argument ∈ arguments, argument.references = []) {ty : Ty}
    (own : ∀ name ∈ ty.references, name ∈ names) :
    (ty.subst (positional names arguments)).references = [] := by
  apply Ty.references_subst_eq_nil
  intro name mention
  obtain ⟨argument, member, found⟩ := positional_of_mem enough (own name mention)
  exact ⟨argument, found, closed argument member⟩

namespace Generic

variable {generic : Generic} {arguments : List Ty}

theorem references_specialise (count : arguments.length = generic.arity)
    (closed : ∀ argument ∈ arguments, argument.references = []) {ty : Ty}
    (own : ∀ name ∈ ty.references, name ∈ generic.parameterNames) :
    (generic.specialise arguments ty).references = [] := by
  refine references_positional ?_ closed own
  rw [count, parameterNames, List.length_map, arity]

theorem Admits.closed {policy : Policy} {traits : TraitAuthority}
    (admits : generic.Admits policy traits arguments) (closedOnly : policy.closedOnly = true) :
    ∀ argument ∈ arguments, argument.references = [] := by
  intro argument member
  -- There is no argument without a parameter it is judged by.
  have all : (generic.parameters.zip arguments).map Prod.snd = arguments :=
    List.map_snd_zip (Nat.le_of_eq admits.count)
  obtain ⟨pair, paired, rfl⟩ := List.mem_map.mp (all ▸ member)
  have accepted := Request.accepts_iff.mpr (admits.shapes pair paired)
  by_contra mentions
  exact accepted _ (.openArgument closedOnly mentions)

end Generic

end Specialising

/-- No reference to a parameter is left in the arguments, and none in the signature, provided that
the signature of the declaration mentions its parameters only. -/
structure Artifact.Concrete (artifact : Artifact) (catalog : Catalog) : Prop where
  arguments : ∀ argument ∈ artifact.arguments, argument.references = []
  signature : ∃ shared, catalog.find? artifact.generic = some shared ∧
    ∀ declared, shared.generic.signature = some declared →
      (∀ name ∈ declared.references, name ∈ shared.generic.parameterNames) →
      ∃ signature, artifact.signature = some signature ∧ signature.references = []

namespace CompilationUnit

variable {unit : CompilationUnit}

theorem concrete_of_held (reached : unit.ReachableWithin fun _ policy => policy.closedOnly = true)
    {artifact : Artifact} (held : artifact ∈ unit.artifacts) : artifact.Concrete unit.catalog := by
  have fits := reached.reachable.consistent.fits artifact held
  obtain ⟨entry, found, _, generic, arguments⟩ := fits.marked
  obtain ⟨shared, known, _, policy, closedOnly, admits⟩ :=
    reached.admitted.2 entry (List.mem_of_getElem? found)
  rw [arguments] at admits
  rw [generic] at known
  refine ⟨admits.closed closedOnly, shared, known, ?_⟩
  intro declared signed own
  obtain ⟨same, knownSame, signature⟩ := fits.signed
  rw [known] at knownSame
  cases knownSame
  rw [Generic.signs_iff, signed] at signature
  exact ⟨_, signature, Generic.references_specialise admits.count (admits.closed closedOnly) own⟩

/-- Where all units on the way refuse open arguments, code generation gets closed types only: of
the artifacts a unit holds, of those it makes in a sweep and of those it hands off, the arguments
have no reference to a parameter, nor has the signature if the declaration's own one mentions
nothing but the declaration's parameters. -/
theorem artifacts_concrete
    (reached : unit.ReachableWithin fun _ policy => policy.closedOnly = true) {artifact : Artifact}
    (given : artifact ∈ unit.artifacts ∨ artifact ∈ unit.sweep.1 ∨
      artifact ∈ unit.takeArtifacts.1) :
    artifact.Concrete unit.catalog := by
  rcases given with held | made | taken
  · exact concrete_of_held reached held
  · have swept : (unit.after .sweep).ReachableWithin fun _ policy => policy.closedOnly = true :=
      reached.change .sweep nofun
    exact concrete_of_held swept (List.mem_of_mem_drop made)
  · exact concrete_of_held reached taken

section Lifts

/-- A generic over a type constructor, with a default that applies it. -/
def lift : SharedGeneric :=
  ⟨7, { Generic.bare "Lift" with
    parameters := [⟨"F", [], none, none, none, some (.ofArity 1)⟩,
      ⟨"T", [], none, none, none, none⟩,
      ⟨"U", [], some (.app (.param "F") [.param "T"]), none, none, none⟩]
    signature := some (.func [.param "T"] (.app (.param "F") [.param "U"])) }⟩

/-- Its last argument comes from the default. -/
def listLifts : CompilationUnit :=
  (empty .lenient .standard).afterAll
    [.register lift, .requestWithDefaults ⟨"Lift", [.ctor "List" 1, .prim .int], none, none⟩,
      .sweep]

/-- A unit that waits for the artifact of one instance and holds one that came by a merge. -/
def lifts : CompilationUnit :=
  (empty .lenient .standard).afterAll
    [.register lift,
      .request ⟨"Lift", [.app (.ctor "Map" 2) [.prim .string], .prim .bool, .prim .char], none,
        none⟩,
      .merge listLifts]

theorem closed_lifts : lifts.ReachableWithin fun _ policy => policy.closedOnly = true := by
  have merged : listLifts.ReachableWithin fun _ policy => policy.closedOnly = true := by
    apply ReachableWithin.afterAll (.empty rfl)
    simp
  apply ReachableWithin.afterAll (.empty rfl)
  simp [merged]

theorem lifts_concrete :
    (lifts.ReachableWithin fun _ policy => policy.closedOnly = true) ∧
    (∃ artifact, lifts.artifacts = [artifact] ∧ artifact.Concrete lifts.catalog ∧
      artifact.signature = some (.func [.prim .int]
        (.named "List" [.named "List" [.prim .int]]))) ∧
    ∃ artifact, lifts.sweep.1 = [artifact] ∧ artifact.Concrete lifts.catalog ∧
      artifact.signature = some (.func [.prim .bool]
        (.named "Map" [.prim .string, .prim .char])) := by
  have held : ∃ artifact, lifts.artifacts = [artifact] ∧
      artifact.signature = some (.func [.prim .int]
        (.named "List" [.named "List" [.prim .int]])) := ⟨_, rfl, rfl⟩
  have made : ∃ artifact, lifts.sweep.1 = [artifact] ∧
      artifact.signature = some (.func [.prim .bool]
        (.named "Map" [.prim .string, .prim .char])) := ⟨_, rfl, rfl⟩
  obtain ⟨first, artifacts, firstSignature⟩ := held
  obtain ⟨second, swept, secondSignature⟩ := made
  refine ⟨closed_lifts, ⟨first, artifacts, ?_, firstSignature⟩, second, swept, ?_, secondSignature⟩
  · exact artifacts_concrete closed_lifts (Or.inl (artifacts ▸ List.mem_singleton_self first))
  · exact artifacts_concrete closed_lifts
      (Or.inr (Or.inl (swept ▸ List.mem_singleton_self second)))

end Lifts

end CompilationUnit

end Monomorph
