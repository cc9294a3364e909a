import Custody.Library.Graph.Cycle
import Custody.Library.LoadError

/-! An order in which every module comes after those it imports. Modules whose imports are all done
wait in a queue; taking one of them may make others ready. -/

namespace Custody.ImportGraph

/-- A sort under way: the modules whose imports are all done, how many imports each module still
waits for, and the modules that are done. -/
structure Sorting where
  ready : List String
  waiting : List (String × Nat)
  done : List String

/-- The modules that wait for `path`, once for each time they import it. -/
def dependents (graph : ImportGraph) (path : String) : List String :=
  graph.nodes.flatMap fun node => (node.dependencies.filter (· == path)).map fun _ => node.path

/-- Imports from outside of the graph are not waited for. -/
def startSorting (graph : ImportGraph) : Sorting :=
  let waiting := graph.nodes.map fun node =>
    (node.path, node.dependencies.countP (· ∈ graph.paths))
  { ready := (waiting.filter (·.2 == 0)).map (·.1), waiting, done := [] }

namespace Sorting

/-- Sets how many imports a module waits for. -/
def setWaiting (waiting : List (String × Nat)) (path : String) (count : Nat) :
    List (String × Nat) :=
  waiting.map fun entry => if entry.1 = path then (path, count) else entry

/-- One import of `path` is done. After its last one it is ready. -/
def release (sorting : Sorting) (path : String) : Sorting :=
  match sorting.waiting.lookup path with
  | none => sorting
  | some count =>
      { sorting with
        waiting := setWaiting sorting.waiting path (count - 1)
        ready := if count - 1 = 0 then sorting.ready ++ [path] else sorting.ready }

/-- Takes the first module that is ready. -/
def step (graph : ImportGraph) (sorting : Sorting) : Sorting :=
  match sorting.ready with
  | [] => sorting
  | path :: ready =>
      (graph.dependents path).foldl release
        { sorting with ready, done := sorting.done ++ [path] }

def steps (graph : ImportGraph) : Nat → Sorting → Sorting
  | 0, sorting => sorting
  | n + 1, sorting => steps graph n (sorting.step graph)

end Sorting

/-- All modules, each after those it imports; or the cycle that makes this impossible. Every
module is taken once, so there are as many steps as modules. -/
def order (graph : ImportGraph) : Except LoadError (List String) :=
  match graph.cycle? with
  | some cycle => .error (.circular cycle)
  | none => .ok (graph.startSorting.steps graph graph.nodes.length).done

end Custody.ImportGraph
