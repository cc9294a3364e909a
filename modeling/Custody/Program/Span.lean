/-! Where a piece of a program stands in its file. -/

namespace Custody

/-- A range of positions in one file. -/
structure Span where
  start : Nat := 0
  stop : Nat := 0
  file : Nat := 0
  deriving DecidableEq, Inhabited

namespace Span

/-- The smallest range over both, in the file of the first. -/
def merge (left right : Span) : Span where
  start := min left.start right.start
  stop := max left.stop right.stop
  file := left.file

def render (span : Span) : String :=
  s!"{span.file}:{span.start}..{span.stop}"

instance : ToString Span := ⟨render⟩

end Span

end Custody
