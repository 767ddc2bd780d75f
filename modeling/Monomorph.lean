import Monomorph.Artifact
import Monomorph.Catalog
import Monomorph.CompilationUnit.Basic
import Monomorph.CompilationUnit.Merge
import Monomorph.Fault.Basic
import Monomorph.Fault.Report
import Monomorph.Generic.Basic
import Monomorph.Generic.Draft
import Monomorph.Graph.Basic
import Monomorph.Graph.Components
import Monomorph.Implementation
import Monomorph.Inquiry
import Monomorph.Instance.Absorb
import Monomorph.Instance.Basic
import Monomorph.Instance.Request
import Monomorph.Kind
import Monomorph.Notebook
import Monomorph.OrderedMap
import Monomorph.Policy.Basic
import Monomorph.Policy.Reading
import Monomorph.Proofs.Absorption
import Monomorph.Proofs.Admission
import Monomorph.Proofs.Answers
import Monomorph.Proofs.ArtifactLife
import Monomorph.Proofs.ClosedArtifacts
import Monomorph.Proofs.Comparison
import Monomorph.Proofs.Components
import Monomorph.Proofs.Composition
import Monomorph.Proofs.Conservation
import Monomorph.Proofs.Consistency
import Monomorph.Proofs.DefaultArguments
import Monomorph.Proofs.Drafting
import Monomorph.Proofs.EmissionOrder
import Monomorph.Proofs.Errands
import Monomorph.Proofs.ExpansionDepth
import Monomorph.Proofs.FreeNames
import Monomorph.Proofs.Growth
import Monomorph.Proofs.HandOff
import Monomorph.Proofs.Implementations
import Monomorph.Proofs.Interning
import Monomorph.Proofs.KindTexts
import Monomorph.Proofs.Kinds
import Monomorph.Proofs.MergeGrouping
import Monomorph.Proofs.MergeOrder
import Monomorph.Proofs.MergeUnion
import Monomorph.Proofs.Merging
import Monomorph.Proofs.NamedArguments
import Monomorph.Proofs.NestedRequests
import Monomorph.Proofs.NormalForms
import Monomorph.Proofs.Permanence
import Monomorph.Proofs.PlainReplacement
import Monomorph.Proofs.Provenance
import Monomorph.Proofs.Reachable
import Monomorph.Proofs.Replacement
import Monomorph.Proofs.RequestOrder
import Monomorph.Proofs.Seats
import Monomorph.Proofs.SplitWork
import Monomorph.Proofs.Stability
import Monomorph.Proofs.Substitutability
import Monomorph.Proofs.Sweep
import Monomorph.Proofs.TableSteps
import Monomorph.Proofs.TrivialSubtyping
import Monomorph.Proofs.UniqueSymbols
import Monomorph.Proofs.VarianceLaws
import Monomorph.Proofs.Verdicts
import Monomorph.Reply
import Monomorph.Span
import Monomorph.Substitution
import Monomorph.Symbol
import Monomorph.Toml.Document
import Monomorph.Toml.Node
import Monomorph.Toml.Scalar
import Monomorph.Toml.Text
import Monomorph.Ty.Basic
import Monomorph.Ty.Display
import Monomorph.Ty.Params
import Monomorph.Ty.Subst
import Monomorph.Variance
import Monomorph.Workbench
import Monomorph.Workspace
