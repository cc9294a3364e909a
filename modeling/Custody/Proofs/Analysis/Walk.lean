import Custody.Proofs.Check.Twins
import Custody.Proofs.Check.Visit

/-! Modules can be loaded before a program is checked or on the way. An analysis first asks for all
modules of a program and then checks it where all of them are known. A walk goes through the program
and loads a module where it is asked for, so that each item is checked among the modules that have been
loaded up to there. Both come to the same: what stands for a module in the table has been loaded by
then, and a module of the same path that is loaded later is not kept. -/

namespace Custody

open Check

/-- What the loader has given for an import. -/
def LinkedItem.module? : LinkedItem → Option Module
  | .load _ answer => answer.toOption
  | .decl _ => none

/-! ### Walking through a program -/

/-- A program on the way through its check: the modules that have been loaded, and the state. -/
structure Walk where
  modules : List Module
  state : State

namespace Walk

variable (settings : Settings) (load : String → Except LoadError Module)

/-- Keeps a module that has been loaded, unless one of the same path is there. -/
def keep (walk : Walk) : Except LoadError Module → Walk
  | .error _ => walk
  | .ok loaded =>
      if walk.modules.any (·.path == loaded.path) then walk
      else { walk with modules := walk.modules ++ [loaded] }

/-- Runs a check among the modules that have been loaded so far. -/
def perform (walk : Walk) (language : Language) (check : Check Unit) : Walk :=
  { walk with state := (check ⟨language, walk.modules⟩ walk.state).2 }

/-- Loads a module of the prelude and declares its exports. -/
def stepPrelude (walk : Walk) (path : String) : Walk :=
  (walk.keep (load path)).perform settings.language
    (loadPrelude settings.toleratesMissingPrelude [(path, load path)])

/-- Loads what an item asks for. -/
def request (walk : Walk) : Item → Walk
  | .load request => walk.keep (load request.path)
  | .decl _ => walk

def stepItem (language : Language) (walk : Walk) (item : Item) : Walk :=
  (walk.request load item).perform language (reporting (checkItem (Program.answer load item)))

/-- Walks through a program, from its prelude on. -/
def run (program : Program) : Walk :=
  let declared := settings.language.prelude.foldl (stepPrelude settings load) ⟨[], Linked.initial⟩
  program.foldl (stepItem load settings.language)
    { declared with state := declared.state.openScope }

def analysis (walk : Walk) : Analysis where
  diagnostics := walk.state.diagnostics
  table := walk.state.table
  modules := walk.modules

end Walk

/-- The exports of a module do not stand for modules. -/
theorem Module.noModules_exports (module : Module) (language : Language) :
    ∀ symbol ∈ module.exports language, symbol.module? = none := by
  intro symbol hsymbol
  obtain ⟨decl, -, rfl⟩ := List.mem_map.1 hsymbol
  cases decl <;> rfl

/-! ### Modules by their paths -/

namespace Linked

theorem prefix_firstOfPath (done rest : List Module) : done <+: firstOfPath done rest := by
  induction rest generalizing done with
  | nil => exact List.prefix_rfl
  | cons loaded rest ih =>
      rw [firstOfPath]
      split
      · exact ih done
      · exact (List.prefix_append done [loaded]).trans (ih _)

end Linked

section Members

variable {language : Language} {known more all : List Module} {path : String}

theorem find?_of_first {loaded : Module} {p : Module → Bool} (hall : known <+: all)
    (h : known.find? p = some loaded) : all.find? p = some loaded := by
  obtain ⟨later, rfl⟩ := hall
  rw [List.find?_append, h, Option.some_or]

/-- The members of a module that is there do not change when more modules are loaded. -/
theorem member?_of_mem {loaded : Module} (hall : known <+: all) (h : loaded ∈ known)
    (name : String) :
    Env.member? ⟨language, all⟩ loaded.path name =
      Env.member? ⟨language, known⟩ loaded.path name := by
  unfold Env.member?
  cases hfind : known.find? (·.path == loaded.path) with
  | some found => rw [find?_of_first hall hfind]
  | none => exact absurd (beq_self_eq_true loaded.path) (List.find?_eq_none.1 hfind loaded h)

/-- What stays the same among all modules is the same among those that are loaded on the way. -/
theorem member?_of_first (hknown : known <+: more) (hall : more <+: all)
    (h : ∀ name, Env.member? ⟨language, all⟩ path name = Env.member? ⟨language, known⟩ path name)
    (name : String) :
    Env.member? ⟨language, all⟩ path name = Env.member? ⟨language, more⟩ path name := by
  cases hmore : more.find? (·.path == path) with
  | some found => simp only [Env.member?, hmore, find?_of_first hall hmore]
  | none =>
      have hnone : known.find? (·.path == path) = none := by
        cases hfind : known.find? (·.path == path) with
        | none => rfl
        | some found =>
            rw [find?_of_first hknown hfind] at hmore
            cases hmore
      rw [h name]
      simp only [Env.member?, hmore, hnone]

end Members

/-! ### One item -/

/-- Whatever stands for a module in the table, its members are the same among the modules `known` and
among `all`. -/
def State.Knows (language : Language) (known all : List Module) (s : State) : Prop :=
  s.table.All fun symbol => ∀ path, symbol.module? = some path → ∀ name,
    Env.member? ⟨language, all⟩ path name = Env.member? ⟨language, known⟩ path name

theorem State.Knows.mono {language : Language} {known more all : List Module} {s : State}
    (hknown : known <+: more) (hall : more <+: all) (h : s.Knows language known all) :
    s.Knows language more all :=
  Table.All.mono h fun _ hsymbol path hpath => member?_of_first hknown hall (hsymbol path hpath)

namespace Walk

variable {settings : Settings} {load : String → Except LoadError Module} {language : Language}
  {walk : Walk} {all : List Module}

theorem state_keep (walk : Walk) (answer : Except LoadError Module) :
    (walk.keep answer).state = walk.state := by
  cases answer with
  | error cause => rfl
  | ok loaded =>
      rw [keep]
      split <;> rfl

theorem prefix_keep (walk : Walk) (answer : Except LoadError Module) :
    walk.modules <+: (walk.keep answer).modules := by
  cases answer with
  | error cause => exact List.prefix_rfl
  | ok loaded =>
      rw [keep]
      split
      · exact List.prefix_rfl
      · exact List.prefix_append _ _

/-- A walk keeps modules just as an analysis chooses among them. -/
theorem firstOfPath_keep (walk : Walk) (answer : Except LoadError Module) (rest : List Module) :
    Linked.firstOfPath (walk.keep answer).modules rest =
      Linked.firstOfPath walk.modules (answer.toOption.toList ++ rest) := by
  cases answer with
  | error cause => rfl
  | ok loaded =>
      show _ = Linked.firstOfPath walk.modules (loaded :: rest)
      rw [keep, Linked.firstOfPath]
      split <;> rfl

/-- What has been loaded is kept under its path. -/
theorem exists_mem_keep (walk : Walk) (loaded : Module) :
    ∃ kept ∈ (walk.keep (.ok loaded)).modules, kept.path = loaded.path := by
  rw [keep]
  split
  · rename_i hany
    obtain ⟨kept, hkept, hpath⟩ := List.any_eq_true.1 hany
    exact ⟨kept, hkept, beq_iff_eq.1 hpath⟩
  · exact ⟨loaded, List.mem_append_right _ (List.mem_singleton_self loaded), rfl⟩

theorem state_request (walk : Walk) (item : Item) :
    (walk.request load item).state = walk.state := by
  cases item with
  | load request => exact state_keep walk _
  | decl decl => rfl

theorem prefix_request (walk : Walk) (item : Item) :
    walk.modules <+: (walk.request load item).modules := by
  cases item with
  | load request => exact prefix_keep walk _
  | decl decl => exact List.prefix_rfl

theorem firstOfPath_request (walk : Walk) (item : Item) (rest : List Module) :
    Linked.firstOfPath (walk.request load item).modules rest =
      Linked.firstOfPath walk.modules ((Program.answer load item).module?.toList ++ rest) := by
  cases item with
  | load request => exact firstOfPath_keep walk _ rest
  | decl decl => rfl

/-- An item needs no other modules than the ones that are there when it is checked. -/
theorem admits_request {s : State} {item : Item} (hall : (walk.request load item).modules <+: all) :
    (Pairing.within language (walk.request load item).modules all s s).twins.Admits
      (Program.answer load item) (Program.answer load item) := by
  cases item with
  | decl decl => exact Pairing.admits_decl decl
  | load request =>
      rw [Walk.request] at hall ⊢
      rw [Program.answer]
      generalize load request.path = answer at hall ⊢
      cases answer with
      | error cause => exact .load (.missing cause)
      | ok loaded =>
          obtain ⟨kept, hmem, hpath⟩ := exists_mem_keep walk loaded
          refine .load (.loaded rfl (fun name => ?_) rfl)
          rw [← hpath]
          exact member?_of_mem hall hmem name

/-- One step of a walk does what an analysis does with the item. -/
theorem stepItem_eq {item : Item} {rest : List Module}
    (hall : Linked.firstOfPath walk.modules ((Program.answer load item).module?.toList ++ rest) = all)
    (hknows : walk.state.Knows language walk.modules all) :
    let next := walk.stepItem load language item
    next.state =
        (reporting (checkItem (Program.answer load item)) ⟨language, all⟩ walk.state).2 ∧
      Linked.firstOfPath next.modules rest = all ∧
      next.state.Knows language next.modules all := by
  intro next
  rw [← firstOfPath_request] at hall
  have hbegin : (walk.request load item).modules <+: all := by
    rw [← hall]
    exact Linked.prefix_firstOfPath _ _
  have hagrees : (Pairing.within language (walk.request load item).modules all walk.state
      walk.state).twins.Agrees 0 (reporting (checkItem (Program.answer load item))) :=
    (Coupling.checkItem_couples (Pairing.whole_twins rfl) (admits_request hbegin)).reporting
  obtain ⟨hsilent, hfamiliar, new, hleft, hright⟩ := Pairing.meets_within hagrees rfl
    (hknows.mono (prefix_request walk item) hbegin)
  simp only [next, stepItem, perform, state_request]
  exact ⟨State.eq_of_silent hsilent (hleft.trans hright.symm), hall, hfamiliar⟩

/-- Walking through the items is checking them among all modules. -/
theorem foldl_stepItem (program : Program) (walk : Walk)
    (hall : Linked.firstOfPath walk.modules
      ((program.map (Program.answer load)).filterMap (·.module?)) = all)
    (hknows : walk.state.Knows language walk.modules all) :
    let last := program.foldl (stepItem load language) walk
    last.state =
        (checkItems (program.map (Program.answer load)) ⟨language, all⟩ walk.state).2 ∧
      last.modules = all := by
  induction program generalizing walk with
  | nil => exact ⟨rfl, hall⟩
  | cons item program ih =>
      have hcons : ((item :: program).map (Program.answer load)).filterMap (·.module?) =
          (Program.answer load item).module?.toList ++
            (program.map (Program.answer load)).filterMap (·.module?) := by
        rw [List.map_cons, List.filterMap_cons]
        cases (Program.answer load item).module? <;> rfl
      rw [hcons] at hall
      obtain ⟨hstate, hrest, hnext⟩ := stepItem_eq hall hknows
      have hlast := ih (walk.stepItem load language item) hrest hnext
      rw [List.foldl_cons, List.map_cons, checkItems_cons, ← hstate]
      exact hlast

end Walk

/-! ### The prelude -/

namespace Check

variable {s : State}

theorem declarePrelude_env (symbols : List Symbol) (env env' : Env) (s : State) :
    declarePrelude symbols env s = declarePrelude symbols env' s := by
  induction symbols generalizing s with
  | nil => rfl
  | cons symbol symbols ih => exact ih _

theorem noModules_declarePrelude {symbols : List Symbol} {env : Env}
    (hsymbols : ∀ symbol ∈ symbols, symbol.module? = none)
    (hs : s.table.All (·.module? = none)) :
    (declarePrelude symbols env s).2.table.All (·.module? = none) := by
  induction symbols generalizing s with
  | nil => exact hs
  | cons symbol symbols ih =>
      obtain ⟨hsymbol, hrest⟩ := List.forall_mem_cons.1 hsymbols
      refine ih hrest ?_
      beta_reduce
      split
      · rename_i hdeclare
        exact hs.declare hdeclare hsymbol
      · exact hs

theorem loadPrelude_ok_cons (tolerant : Bool) (path : String) (loaded : Module)
    (prelude : List (String × Except LoadError Module)) (env env' : Env) (s : State) :
    loadPrelude tolerant ((path, .ok loaded) :: prelude) env s =
      loadPrelude tolerant prelude env
        (declarePrelude (loaded.exports env.language) env' s).2 := by
  rw [loadPrelude, declarePrelude_env _ env' env]
  exact bind_of_ok (Linked.declarePrelude_ok _ env s)

end Check

namespace Walk

variable {settings : Settings} {load : String → Except LoadError Module} {walk : Walk}

/-- One step in the prelude, which does not ask for other modules. -/
theorem stepPrelude_eq (walk : Walk) (path : String) (all : List Module)
    (prelude : List (String × Except LoadError Module))
    (hs : walk.state.table.All (·.module? = none)) :
    let env : Env := ⟨settings.language, all⟩
    let next := walk.stepPrelude settings load path
    (loadPrelude settings.toleratesMissingPrelude ((path, load path) :: prelude) env walk.state).2 =
        (loadPrelude settings.toleratesMissingPrelude prelude env next.state).2 ∧
      next.state.table.All (·.module? = none) := by
  intro env next
  simp only [next, stepPrelude, perform, state_keep]
  cases load path with
  | error cause =>
      cases settings.toleratesMissingPrelude with
      | true => exact ⟨rfl, hs⟩
      | false => exact ⟨rfl, hs⟩
  | ok loaded =>
      rw [loadPrelude_ok_cons _ _ _ _ _ env, loadPrelude_ok_cons _ _ _ _ _ env]
      exact ⟨rfl, noModules_declarePrelude (loaded.noModules_exports settings.language) hs⟩

theorem foldl_stepPrelude (settings : Settings) (load : String → Except LoadError Module)
    (paths : List String) (walk : Walk) (all : List Module)
    (hs : walk.state.table.All (·.module? = none)) :
    let entries := paths.map fun path => (path, load path)
    let last := paths.foldl (stepPrelude settings load) walk
    last.state =
        (loadPrelude settings.toleratesMissingPrelude entries ⟨settings.language, all⟩
          walk.state).2 ∧
      last.state.table.All (·.module? = none) ∧
      ∀ rest, Linked.firstOfPath last.modules rest =
        Linked.firstOfPath walk.modules (entries.filterMap (·.2.toOption) ++ rest) := by
  induction paths generalizing walk with
  | nil => exact ⟨rfl, hs, fun rest => rfl⟩
  | cons path paths ih =>
      obtain ⟨hstep, hnext⟩ := stepPrelude_eq walk path all
        (paths.map fun path => (path, load path)) hs
      obtain ⟨hstate, hlast, hmodules⟩ := ih (walk.stepPrelude settings load path) hnext
      refine ⟨hstate.trans hstep.symm, hlast, fun rest => (hmodules rest).trans ?_⟩
      show Linked.firstOfPath (walk.keep (load path)).modules _ = _
      rw [firstOfPath_keep, ← List.append_assoc, List.map_cons, List.filterMap_cons]
      cases load path <;> rfl

theorem noModules_initial : Linked.initial.table.All (·.module? = none) := by
  have hbuiltins : Table.builtins.all (·.module?.isNone) = true := by decide +kernel
  refine Table.all_iff_root.2 ⟨fun symbol hsymbol => ?_, by simp [Linked.initial, Table.initial]⟩
  exact Option.isNone_iff_eq_none.1 (List.all_eq_true.1 hbuiltins symbol hsymbol)

/-- A walk through a program is an analysis of it. -/
theorem analysis_run (settings : Settings) (load : String → Except LoadError Module)
    (program : Program) :
    (run settings load program).analysis = analyze settings load program := by
  let linked : Linked := {
    prelude := settings.language.prelude.map fun path => (path, load path)
    items := program.map (Program.answer load) }
  have hanalyze : analyze settings load program = linked.analyze settings :=
    congrArg (Linked.analyze · settings) (Program.link_pure load settings.language program)
  obtain ⟨hstate, hnone, hmodules⟩ := foldl_stepPrelude settings load settings.language.prelude
    ⟨[], Linked.initial⟩ linked.modules noModules_initial
  let declared := settings.language.prelude.foldl (stepPrelude settings load) ⟨[], Linked.initial⟩
  have hstart : declared.state.openScope = linked.start settings := congrArg State.openScope hstate
  have hknows : declared.state.openScope.Knows settings.language declared.modules
      linked.modules := by
    refine hnone.push.mono fun symbol hsymbol path hpath => ?_
    rw [hsymbol] at hpath
    cases hpath
  obtain ⟨hfinal, hkept⟩ :=
    foldl_stepItem program { declared with state := declared.state.openScope } (hmodules _) hknows
  have hrun : run settings load program = program.foldl (stepItem load settings.language)
      { declared with state := declared.state.openScope } := rfl
  rw [analysis, hrun, hfinal, hkept, hanalyze, Linked.analyze_eq, ← hstart]
  rfl

end Walk

end Custody
