/-! Why a module could not be loaded. -/

namespace Custody

inductive LoadError where
  | notFound (path : String)
  /-- The paths lead from a module over its imports back to it. -/
  | circular (cycle : List String)
  | invalidPath (path reason : String)
  deriving DecidableEq

namespace LoadError

def message : LoadError → String
  | notFound path => s!"module '{path}' not found"
  | circular cycle => "circular import: " ++ " -> ".intercalate cycle
  | invalidPath path reason => s!"invalid module path '{path}': {reason}"

end LoadError

end Custody
