/-!
Places in a source text. A front end hands over half-open byte ranges; messages
point at a place by its offset and length.
-/

namespace Monomorph

/-- A byte range of a source text, from `start` up to but excluding `stop`. -/
structure Span where
  start : Nat
  stop : Nat
deriving DecidableEq

/-- A place as messages give it: where it begins and how many bytes it covers. -/
structure Extent where
  offset : Nat
  length : Nat
deriving DecidableEq

namespace Span

/-- A reversed range covers nothing. -/
def length (span : Span) : Nat := span.stop - span.start

def isEmpty (span : Span) : Bool := span.length == 0

def extent (span : Span) : Extent := ⟨span.start, span.length⟩

end Span

end Monomorph
