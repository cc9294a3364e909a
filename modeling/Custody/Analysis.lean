import Custody.Check.Decl
import Custody.Settings

/-! The analysis of a whole program. First its modules are requested from a loader, the prelude
before the imports, each in order. What the loader answers is linked into the program, and then
the program is checked without any loader. -/

namespace Custody

/-- An import together with what the loader answered, or a declaration. -/
inductive LinkedItem where
  | load (request : Import) (answer : Except LoadError Module)
  | decl (decl : Decl)

/-- A program with the answers to all its requests. -/
structure Linked where
  prelude : List (String × Except LoadError Module)
  items : List LinkedItem

namespace Linked

/-- The loaded modules in the order of their requests. -/
def answers (linked : Linked) : List Module :=
  linked.prelude.filterMap (·.2.toOption) ++
    linked.items.filterMap fun
      | .load _ answer => answer.toOption
      | .decl _ => none

/-- Of several modules with one path, the first one stays. -/
def firstOfPath : List Module → List Module → List Module
  | done, [] => done
  | done, loaded :: rest =>
      if done.any (·.path == loaded.path) then firstOfPath done rest
      else firstOfPath (done ++ [loaded]) rest

/-- The modules that are known to the program, without repetition. -/
def modules (linked : Linked) : List Module :=
  firstOfPath [] linked.answers

end Linked

namespace Program

variable {m : Type → Type} [Monad m]

/-- Requests the module of an import. -/
def linkItem (load : String → m (Except LoadError Module)) : Item → m LinkedItem
  | .load request => do
      let answer ← load request.path
      return .load request answer
  | .decl decl => return .decl decl

/-- Requests all modules of a program. -/
def link (load : String → m (Except LoadError Module)) (language : Language) (program : Program) :
    m Linked := do
  let prelude ← language.prelude.mapM fun path => do
    let answer ← load path
    return (path, answer)
  let items ← program.mapM (linkItem load)
  return { prelude, items }

end Program

namespace Check

/-- Declares the exports of a prelude module. Names that are taken already stay as they are. -/
def declarePrelude : List Symbol → Check Unit
  | [] => return
  | symbol :: symbols => do
      modify fun state =>
        match state.table.declare symbol with
        | .ok (_, table) => { state with table }
        | .error _ => state
      declarePrelude symbols

/-- Declares the exports of an imported module. Names that are taken are reported at the import. -/
def declareImports (span : Span) : List Symbol → Check Unit
  | [] => return
  | symbol :: symbols => do
      modify fun state =>
        match state.table.declare symbol with
        | .ok (_, table) => { state with table }
        | .error cause => state.report ⟨.ofScope cause, span⟩
      declareImports span symbols

def loadPrelude (tolerant : Bool) : List (String × Except LoadError Module) → Check Unit
  | [] => return
  | (path, answer) :: rest => do
      let language ← language
      match answer with
      | .ok loaded => declarePrelude (loaded.exports language)
      | .error cause => require tolerant (.moduleNotLoaded path cause) {}
      loadPrelude tolerant rest

def checkImport (request : Import) (answer : Except LoadError Module) : Check Unit :=
  match answer with
  | .error cause => fail (.moduleNotLoaded request.path cause) request.span
  | .ok loaded =>
      match request.name with
      | some name => declare (Symbol.module name.name loaded.path name.span)
      | none => do
          let language ← language
          declareImports request.span (loaded.exports language)

def checkItem : LinkedItem → Check Unit
  | .load request answer => checkImport request answer
  | .decl decl => checkDecl decl

def checkItems : List LinkedItem → Check Unit
  | [] => return
  | item :: items => do
      reporting (checkItem item)
      checkItems items

/-- Declares the prelude in the root scope and checks the program in a scope above it, which stays
open. -/
def checkLinked (tolerant : Bool) (linked : Linked) : Check Unit := do
  loadPrelude tolerant linked.prelude
  modify State.openScope
  checkItems linked.items

end Check

/-- The outcome of an analysis. -/
structure Analysis where
  diagnostics : List Diagnostic
  table : Table
  modules : List Module

namespace Analysis

def isOk (analysis : Analysis) : Bool :=
  analysis.diagnostics.isEmpty

end Analysis

namespace Linked

/-- The state in which an analysis starts. -/
def initial : State where
  table := Table.initial

def analyze (linked : Linked) (settings : Settings) : Analysis :=
  let env : Env := ⟨settings.language, linked.modules⟩
  let state := (Check.checkLinked settings.toleratesMissingPrelude linked env initial).2
  { diagnostics := state.diagnostics, table := state.table, modules := linked.modules }

end Linked

/-- Analyses a program whose modules come from a loader without memory. -/
def analyze (settings : Settings) (load : String → Except LoadError Module) (program : Program) :
    Analysis :=
  let linked := Id.run (program.link (fun path => pure (load path)) settings.language)
  linked.analyze settings

end Custody
