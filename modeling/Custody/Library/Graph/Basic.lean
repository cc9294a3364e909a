/-! The graph of imports between modules. -/

namespace Custody

/-- Inserts a text into a list in ascending order, once. -/
def insertSorted (text : String) : List String → List String
  | [] => [text]
  | t :: rest =>
      if text < t then text :: t :: rest
      else if text = t then t :: rest
      else t :: insertSorted text rest

/-- The texts of a list in ascending order, each once. -/
def sortedSet (texts : List String) : List String :=
  texts.foldr insertSorted []

/-- A module with the paths it imports, as they are recorded, and the names it exports. -/
structure ImportNode where
  path : String
  dependencies : List String
  exports : List String

structure ImportGraph where
  /-- In ascending order of their paths, which are distinct. -/
  nodes : List ImportNode := []
  entry : Option String := none

namespace ImportGraph

/-- Inserts a node in order. It replaces the node of its path. -/
def insertNode (node : ImportNode) : List ImportNode → List ImportNode
  | [] => [node]
  | n :: rest =>
      if node.path < n.path then node :: n :: rest
      else if node.path = n.path then node :: rest
      else n :: insertNode node rest

def add (graph : ImportGraph) (path : String) (dependencies exports : List String) : ImportGraph :=
  { graph with nodes := insertNode ⟨path, dependencies, sortedSet exports⟩ graph.nodes }

def setEntry (graph : ImportGraph) (path : String) : ImportGraph :=
  { graph with entry := some path }

def get? (graph : ImportGraph) (path : String) : Option ImportNode :=
  graph.nodes.find? (·.path == path)

def paths (graph : ImportGraph) : List String :=
  graph.nodes.map (·.path)

/-- The recorded imports of a path; a path that is not in the graph has none. -/
def imports (graph : ImportGraph) (path : String) : List String :=
  ((graph.get? path).map (·.dependencies)).getD []

theorem mem_paths_of_mem_imports {graph : ImportGraph} {path dependency : String}
    (h : dependency ∈ graph.imports path) : path ∈ graph.paths := by
  simp only [imports] at h
  cases hn : graph.get? path with
  | none => simp [hn] at h
  | some node =>
      have hmem := List.mem_of_find?_eq_some hn
      have hpath := List.find?_some hn
      simp only [paths, List.mem_map]
      exact ⟨node, hmem, by simpa using hpath⟩

end ImportGraph

end Custody
