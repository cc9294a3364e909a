/-! The four ways to take scoped access to a variable. Each construct binds a token that stands for
the variable inside its body. -/

namespace Custody

inductive Access where
  /-- Exclusive and read-only. -/
  | viewing
  /-- Exclusive and writable; the only access whose token a usurping routine may return. -/
  | hijacking
  /-- An exclusive lock, writable. -/
  | seizing
  /-- A lock that others may hold at the same time, read-only. -/
  | observing
  deriving DecidableEq

namespace Access

def all : List Access :=
  [viewing, hijacking, seizing, observing]

/-- The word that opens the construct. -/
def keyword : Access → String
  | viewing => "viewing" | hijacking => "hijacking" | seizing => "seizing"
  | observing => "observing"

/-- How a variable under this access is described. -/
def render : Access → String
  | viewing => "exclusively viewed" | hijacking => "hijacked" | seizing => "seized"
  | observing => "observed"

instance : ToString Access := ⟨render⟩

/-- The name of the type of tokens of this access. -/
def tokenName : Access → String
  | viewing => "Viewed" | hijacking => "Hijacked" | seizing => "Seized" | observing => "Observed"

def ofTokenName? (name : String) : Option Access :=
  all.find? (·.tokenName == name)

/-- Whether the variable may be written through the token. -/
def writes : Access → Bool
  | hijacking | seizing => true
  | viewing | observing => false

/-- Two accesses may hold one variable at the same time only if both observe it. -/
def compatible (left right : Access) : Bool :=
  left == observing && right == observing

theorem mem_all (a : Access) : a ∈ all := by
  cases a <;> decide

theorem ofTokenName?_tokenName (a : Access) : ofTokenName? a.tokenName = some a := by
  cases a <;> decide

end Access

end Custody
