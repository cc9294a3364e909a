import Custody.Library.Graph.Basic
import Custody.Library.Stack

/-! Circular imports, found by a depth-first search. -/

namespace Custody.ImportGraph

mutual
/-- Searches for a cycle below `path`, inside of the paths on the stack. It gives the paths that
have been seen, or else a cycle. -/
def visit (graph : ImportGraph) (stack : List String) (path : String) (seen : List String) :
    Except (List String) (List String) :=
  if _room : path ∈ graph.paths ∧ path ∉ stack then
    visitAll graph (stack ++ [path]) (graph.imports path) (path :: seen)
  else .ok (path :: seen)
termination_by (roomLeft graph.paths stack, 0)
decreasing_by
  exact Prod.Lex.left _ _ (roomLeft_append_lt _room.1 _room.2)

/-- Searches below each of the paths in turn. -/
def visitAll (graph : ImportGraph) (stack : List String) :
    (dependencies : List String) → (seen : List String) → Except (List String) (List String)
  | [], seen => .ok seen
  | dependency :: rest, seen =>
      if dependency ∈ stack then .error (cycleThrough stack dependency)
      else if dependency ∈ seen then visitAll graph stack rest seen
      else
        match visit graph stack dependency seen with
        | .error cycle => .error cycle
        | .ok seen => visitAll graph stack rest seen
termination_by dependencies => (roomLeft graph.paths stack, dependencies.length + 1)
end

/-- A cycle of imports, if there is one. Modules are searched in ascending order. -/
def cycle? (graph : ImportGraph) : Option (List String) :=
  match visitAll graph [] graph.paths [] with
  | .error cycle => some cycle
  | .ok _ => none

end Custody.ImportGraph
