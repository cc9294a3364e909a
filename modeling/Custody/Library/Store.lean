import Custody.Library.Graph.Order
import Custody.Library.Module
import Custody.Library.Path
import Custody.Library.Stack

/-! The store of loaded modules. A module is loaded after all that it imports, and once it is in the
store its source is not asked for it again. -/

namespace Custody

/-- Where programs come from. An answer may depend on what was asked before, but only finitely many
paths are ever answered with a program. -/
structure Source where
  fetch : (asked : List String) → (path : String) → Except LoadError Program
  paths : List String
  mem_paths : ∀ {asked : List String} {path : String} {program : Program},
    fetch asked path = .ok program → path ∈ paths

namespace Source

/-- What a list of programs and a list of errors answer. An error wins over a program, and of
several entries of one path the last one counts. -/
def answer (programs : List (String × Program)) (errors : List (String × LoadError))
    (path : String) : Except LoadError Program :=
  match errors.reverse.lookup path with
  | some cause => .error cause
  | none =>
      match programs.reverse.lookup path with
      | some program => .ok program
      | none => .error (.notFound path)

theorem mem_of_answer {programs : List (String × Program)} {errors : List (String × LoadError)}
    {path : String} {program : Program} (h : answer programs errors path = .ok program) :
    path ∈ programs.map (·.1) := by
  unfold answer at h
  split at h
  · cases h
  · split at h
    · rename_i found hfound
      obtain ⟨before, after, hsplit, -⟩ := List.lookup_eq_some_iff.1 hfound
      have hmem : (path, found) ∈ programs.reverse := by simp [hsplit]
      exact List.mem_map.2 ⟨_, List.mem_reverse.1 hmem, rfl⟩
    · cases h

/-- A source that always gives the same answers. -/
def ofLists (programs : List (String × Program)) (errors : List (String × LoadError)) : Source where
  fetch _ := answer programs errors
  paths := programs.map (·.1)
  mem_paths := mem_of_answer

end Source

structure Store where
  /-- The loaded modules in the order of their loading; their paths are distinct. -/
  modules : List Module := []
  /-- The paths that are being worked on, outermost first. -/
  loading : List String := []
  graph : ImportGraph := {}
  /-- Every path that the source has been asked for, in order. -/
  asked : List String := []

namespace Program

/-- The paths that a program imports when it stands at `path`. Specifiers without a path are left
out; they are reported where the program is checked. -/
def dependencies (program : Program) (path : String) : List String :=
  program.imports.filterMap fun request => (Path.resolve request.path (some path)).toOption

def exportNames (program : Program) : List String :=
  program.exports.map (·.name.name)

end Program

namespace Store

def get? (store : Store) (path : String) : Option Module :=
  store.modules.find? (·.path == path)

/-- The path of a specifier in the module that is being worked on. -/
def resolve (store : Store) (specifier : String) : Except LoadError String :=
  match Path.resolve specifier store.loading.getLast? with
  | .ok path => .ok path
  | .error fault => .error (Path.invalid specifier fault)

def ask (store : Store) (path : String) : Store :=
  { store with asked := store.asked ++ [path] }

/-- Begins to work on a path. -/
def enter (store : Store) (path : String) : Store :=
  { store with loading := store.loading ++ [path] }

/-- Ends the work on the path that was begun last. -/
def leave (store : Store) : Store :=
  { store with loading := store.loading.dropLast }

/-- Puts a program with its imports and exports into the graph. -/
def record (store : Store) (path : String) (program : Program) : Store :=
  { store with graph := store.graph.add path (program.dependencies path) program.exportNames }

/-- Keeps a module whose imports are all in the store. -/
def keep (store : Store) (module : Module) : Store :=
  let store := store.record module.path module.program
  { store with modules := store.modules ++ [module] }

mutual
/-- Loads a path while the paths on the stack are being loaded. -/
def loadPath (source : Source) (stack : List String) (path : String) (store : Store) :
    Except LoadError Module × Store :=
  match store.get? path with
  | some module => (.ok module, store)
  | none =>
      if _hnew : path ∈ stack then (.error (.circular (cycleThrough stack path)), store)
      else
        match _hfetch : source.fetch store.asked path with
        | .error cause => (.error cause, store.ask path)
        | .ok program =>
            match loadAll source (stack ++ [path]) (program.dependencies path) (store.ask path) with
            | (.error cause, store) => (.error cause, store)
            | (.ok (), store) => (.ok ⟨path, program⟩, store.keep ⟨path, program⟩)
termination_by (roomLeft source.paths stack, 0)
decreasing_by
  exact Prod.Lex.left _ _ (roomLeft_append_lt (source.mem_paths _hfetch) _hnew)

/-- Loads paths in turn, up to the first that fails. -/
def loadAll (source : Source) (stack : List String) :
    (paths : List String) → Store → Except LoadError Unit × Store
  | [], store => (.ok (), store)
  | path :: paths, store =>
      match loadPath source stack path store with
      | (.error cause, store) => (.error cause, store)
      | (.ok _, store) => loadAll source stack paths store
termination_by paths => (roomLeft source.paths stack, paths.length + 1)
end

/-- Loads the module that a specifier names. -/
def load (source : Source) (specifier : String) (store : Store) :
    Except LoadError Module × Store :=
  match store.resolve specifier with
  | .error cause => (.error cause, store)
  | .ok path => loadPath source store.loading path store

end Store

end Custody
