import Custody.Analysis
import Custody.Library.Store

/-! Sessions: programs are checked one after the other and share the modules they load. -/

namespace Custody

structure Session where
  settings : Settings := {}
  source : Source
  store : Store := {}

namespace Session

/-- The extension of the file that is checked decides on its language, if it is known. -/
def settingsFor (session : Session) (entry : String) : Settings :=
  let extension := (Text.afterLast '.' entry.toList).map String.ofList
  match extension.bind Language.ofExtension? with
  | some language => { session.settings with language }
  | none => session.settings

/-- Requests the modules of a program from the store, inside of the paths that are being loaded. -/
def link (source : Source) (language : Language) (program : Program) : StateM Store Linked :=
  program.link (fun path => Store.load source path) language

/-- Checks a program that stands at `entry`. While its modules are loaded, the path of the entry
counts as being loaded, so that an import of it is circular; afterwards it is the entry of the
graph. An entry without a path is checked from the root. -/
def check (session : Session) (entry : String) (program : Program) : Analysis × Session :=
  let settings := session.settingsFor entry
  match session.store.resolve entry with
  | .error _ =>
      let (linked, store) := link session.source settings.language program session.store
      (linked.analyze settings, { session with store })
  | .ok path =>
      let (linked, store) := link session.source settings.language program
        (session.store.enter path)
      let after := store.leave.record path program
      (linked.analyze settings,
        { session with store := { after with graph := after.graph.setEntry path } })

/-- All modules that were loaded or checked, each after those it imports. -/
def loadOrder (session : Session) : Except LoadError (List String) :=
  session.store.graph.order

end Session

end Custody
