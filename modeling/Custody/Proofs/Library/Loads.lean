import Custody.Library.Store
import Mathlib.Logic.Relation

/-! Loading as a system of rules. They also speak of sources that answer more paths than can be
listed, where a load may have no end; the loader of the library follows them. A load descends into the
loads of its imports, and it ends unless this descent goes on for ever. Every load is a sequence of two
kinds of steps: the source is asked, and a module whose imports are all in the store is kept. What
holds of a store after any number of requests is derived from these steps. -/

namespace Custody

/-- What a source answers for a path, after what it was asked before. -/
abbrev Fetch := (asked : List String) → (path : String) → Except LoadError Program

namespace Store

/-! ### The rules -/

mutual

/-- Loading a path while the paths on the stack are being loaded. -/
inductive Loads (fetch : Fetch) :
    (stack : List String) → (path : String) → Store → Except LoadError Module → Store → Prop
  | known {stack : List String} {path : String} {store : Store} {module : Module}
      (hknown : store.get? path = some module) :
      Loads fetch stack path store (.ok module) store
  | circular {stack : List String} {path : String} {store : Store}
      (hnew : store.get? path = none) (hstack : path ∈ stack) :
      Loads fetch stack path store (.error (.circular (cycleThrough stack path))) store
  | refused {stack : List String} {path : String} {store : Store} {cause : LoadError}
      (hnew : store.get? path = none) (hstack : path ∉ stack)
      (hfetch : fetch store.asked path = .error cause) :
      Loads fetch stack path store (.error cause) (store.ask path)
  | blocked {stack : List String} {path : String} {store after : Store} {program : Program}
      {cause : LoadError} (hnew : store.get? path = none) (hstack : path ∉ stack)
      (hfetch : fetch store.asked path = .ok program)
      (himports : LoadsAll fetch (stack ++ [path]) (program.dependencies path) (store.ask path)
        (.error cause) after) :
      Loads fetch stack path store (.error cause) after
  | loaded {stack : List String} {path : String} {store after : Store} {program : Program}
      (hnew : store.get? path = none) (hstack : path ∉ stack)
      (hfetch : fetch store.asked path = .ok program)
      (himports : LoadsAll fetch (stack ++ [path]) (program.dependencies path) (store.ask path)
        (.ok ()) after) :
      Loads fetch stack path store (.ok ⟨path, program⟩) (after.keep ⟨path, program⟩)

/-- Loading paths in turn, up to the first that fails. -/
inductive LoadsAll (fetch : Fetch) :
    (stack paths : List String) → Store → Except LoadError Unit → Store → Prop
  | nil {stack : List String} {store : Store} : LoadsAll fetch stack [] store (.ok ()) store
  | failed {stack : List String} {path : String} {paths : List String} {store after : Store}
      {cause : LoadError} (hfirst : Loads fetch stack path store (.error cause) after) :
      LoadsAll fetch stack (path :: paths) store (.error cause) after
  | cons {stack : List String} {path : String} {paths : List String}
      {store between after : Store} {module : Module} {outcome : Except LoadError Unit}
      (hfirst : Loads fetch stack path store (.ok module) between)
      (hrest : LoadsAll fetch stack paths between outcome after) :
      LoadsAll fetch stack (path :: paths) store outcome after

end

/-- A request for the module that a specifier names. -/
inductive Requests (fetch : Fetch) (specifier : String) (store : Store) :
    Except LoadError Module → Store → Prop
  | unresolved {cause : LoadError} (hresolve : store.resolve specifier = .error cause) :
      Requests fetch specifier store (.error cause) store
  | resolved {path : String} {result : Except LoadError Module} {after : Store}
      (hresolve : store.resolve specifier = .ok path)
      (hload : Loads fetch store.loading path store result after) :
      Requests fetch specifier store result after

/-- Any number of requests one after the other, whether they succeed or fail. -/
def Follows (fetch : Fetch) : Store → Store → Prop :=
  Relation.ReflTransGen fun store after =>
    ∃ specifier result, Requests fetch specifier store result after

/-! ### Loads within loads -/

/-- A load when it begins. -/
structure Load where
  stack : List String
  path : String
  store : Store

/-- The second load is made for an import of the first one's path: that path has just been fetched, and
the imports before this one have been loaded. -/
inductive Nests (fetch : Fetch) : Load → Load → Prop
  | intro {stack : List String} {path : String} {store between : Store} {program : Program}
      {front back : List String} {dependency : String}
      (hnew : store.get? path = none) (hstack : path ∉ stack)
      (hfetch : fetch store.asked path = .ok program)
      (hsplit : program.dependencies path = front ++ dependency :: back)
      (hfront : LoadsAll fetch (stack ++ [path]) front (store.ask path) (.ok ()) between) :
      Nests fetch ⟨stack, path, store⟩ ⟨stack ++ [path], dependency, between⟩

/-- A program that was fetched is loaded or not, once its imports have been. -/
theorem exists_loads_of_fetched {fetch : Fetch} {stack : List String} {path : String}
    {store : Store} {program : Program} (hnew : store.get? path = none) (hstack : path ∉ stack)
    (hfetch : fetch store.asked path = .ok program)
    (himports : ∃ outcome after, LoadsAll fetch (stack ++ [path]) (program.dependencies path)
      (store.ask path) outcome after) :
    ∃ result after, Loads fetch stack path store result after := by
  obtain ⟨outcome, after, hall⟩ := himports
  cases outcome with
  | error cause => exact ⟨_, _, .blocked hnew hstack hfetch hall⟩
  | ok _ => exact ⟨_, _, .loaded hnew hstack hfetch hall⟩

/-- Loading paths in turn comes to an end if every load that is begun for one of them does. -/
theorem exists_loadsAll {fetch : Fetch} {stack paths : List String} {store : Store}
    (h : ∀ front path back between, paths = front ++ path :: back →
      LoadsAll fetch stack front store (.ok ()) between →
      ∃ result after, Loads fetch stack path between result after) :
    ∃ outcome after, LoadsAll fetch stack paths store outcome after := by
  induction paths generalizing store with
  | nil => exact ⟨_, _, .nil⟩
  | cons path paths ih =>
      obtain ⟨result, between, hfirst⟩ := h [] path paths store rfl .nil
      cases result with
      | error cause => exact ⟨_, _, .failed hfirst⟩
      | ok module =>
          have hrest : ∃ outcome after, LoadsAll fetch stack paths between outcome after := by
            apply ih
            intro front next back later hsplit hfront
            exact h (path :: front) next back later (by rw [hsplit]; rfl) (.cons hfirst hfront)
          obtain ⟨outcome, after, hall⟩ := hrest
          exact ⟨_, _, .cons hfirst hall⟩

/-- A load that leads to no endless descent into imports comes to an end. -/
theorem exists_loads_of_acc {fetch : Fetch} {load : Load}
    (h : Acc (fun inner outer => Nests fetch outer inner) load) :
    ∃ result after, Loads fetch load.stack load.path load.store result after := by
  induction h with
  | intro load _ ih =>
      rcases load with ⟨stack, path, store⟩
      cases hstore : store.get? path with
      | some module => exact ⟨_, _, .known hstore⟩
      | none =>
          by_cases hstack : path ∈ stack
          · exact ⟨_, _, .circular hstore hstack⟩
          · cases hfetch : fetch store.asked path with
            | error cause => exact ⟨_, _, .refused hstore hstack hfetch⟩
            | ok program =>
                apply exists_loads_of_fetched hstore hstack hfetch
                apply exists_loadsAll
                intro front dependency back between hsplit hfront
                exact ih ⟨stack ++ [path], dependency, between⟩
                  (.intro hstore hstack hfetch hsplit hfront)

/-- If only finitely many paths are answered with a program, the descent into imports ends: every load
within another leaves less room on the stack. -/
theorem nests_wellFounded {fetch : Fetch} {paths : List String}
    (hpaths : ∀ {asked : List String} {path : String} {program : Program},
      fetch asked path = .ok program → path ∈ paths) :
    WellFounded fun inner outer => Nests fetch outer inner := by
  have hless : ∀ {inner outer : Load}, Nests fetch outer inner →
      roomLeft paths inner.stack < roomLeft paths outer.stack := by
    intro inner outer h
    cases h with
    | intro _ hstack hfetch _ _ => exact roomLeft_append_lt (hpaths hfetch) hstack
  exact Subrelation.wf hless (measure fun load : Load => roomLeft paths load.stack).wf

/-! ### The loader follows the rules -/

variable {source : Source}

theorem loadPath_of_fetched {stack : List String} {path : String} {store : Store}
    {program : Program} (hnew : store.get? path = none) (hstack : path ∉ stack)
    (hfetch : source.fetch store.asked path = .ok program) :
    loadPath source stack path store =
      match loadAll source (stack ++ [path]) (program.dependencies path) (store.ask path) with
      | (.error cause, after) => (.error cause, after)
      | (.ok (), after) => (.ok ⟨path, program⟩, after.keep ⟨path, program⟩) := by
  rw [loadPath, hnew]
  simp only [dif_neg hstack]
  split
  · rename_i hcause
    cases hfetch.symm.trans hcause
  · rename_i found hfound
    cases hfetch.symm.trans hfound
    rfl

mutual

theorem Loads.loadPath_eq {stack : List String} {path : String} {store after : Store}
    {result : Except LoadError Module} (h : Loads source.fetch stack path store result after) :
    loadPath source stack path store = (result, after) :=
  match h with
  | .known hknown => by rw [loadPath, hknown]
  | .circular hnew hstack => by
      rw [loadPath, hnew]
      simp only [dif_pos hstack]
  | .refused hnew hstack hfetch => by
      rw [loadPath, hnew]
      simp only [dif_neg hstack]
      split
      · rename_i hcause
        cases hfetch.symm.trans hcause
        rfl
      · rename_i hfound
        cases hfetch.symm.trans hfound
  | .blocked hnew hstack hfetch himports => by
      rw [loadPath_of_fetched hnew hstack hfetch, himports.loadAll_eq]
  | .loaded hnew hstack hfetch himports => by
      rw [loadPath_of_fetched hnew hstack hfetch, himports.loadAll_eq]

theorem LoadsAll.loadAll_eq {stack paths : List String} {store after : Store}
    {outcome : Except LoadError Unit} (h : LoadsAll source.fetch stack paths store outcome after) :
    loadAll source stack paths store = (outcome, after) :=
  match h with
  | .nil => by rw [loadAll]
  | .failed hfirst => by rw [loadAll, hfirst.loadPath_eq]
  | .cons hfirst hrest => by
      rw [loadAll, hfirst.loadPath_eq]
      exact hrest.loadAll_eq

end

/-- From a source that answers finitely many paths, every load comes to an end. -/
theorem exists_loads (source : Source) (stack : List String) (path : String) (store : Store) :
    ∃ result after, Loads source.fetch stack path store result after :=
  exists_loads_of_acc ((nests_wellFounded source.mem_paths).apply ⟨stack, path, store⟩)

theorem loads_iff {stack : List String} {path : String} {store after : Store}
    {result : Except LoadError Module} :
    Loads source.fetch stack path store result after ↔
      loadPath source stack path store = (result, after) := by
  refine ⟨Loads.loadPath_eq, ?_⟩
  intro hload
  obtain ⟨result', after', hloads⟩ := exists_loads source stack path store
  cases hloads.loadPath_eq.symm.trans hload
  exact hloads

theorem requests_iff {specifier : String} {store after : Store}
    {result : Except LoadError Module} :
    Requests source.fetch specifier store result after ↔
      load source specifier store = (result, after) := by
  rw [load]
  constructor
  · intro h
    cases h with
    | unresolved hresolve => rw [hresolve]
    | resolved hresolve hload =>
        rw [hresolve]
        exact hload.loadPath_eq
  · intro h
    cases hresolve : store.resolve specifier with
    | error cause =>
        rw [hresolve] at h
        cases h
        exact .unresolved hresolve
    | ok path =>
        rw [hresolve] at h
        exact .resolved hresolve (loads_iff.2 h)

theorem follows_of_load {specifier : String} {store after : Store}
    {result : Except LoadError Module} (h : load source specifier store = (result, after)) :
    Follows source.fetch store after :=
  .single ⟨specifier, result, requests_iff.2 h⟩

/-! ### What a load does, one thing at a time -/

/-- The source is asked for a path that is not in the store, or a program that it has answered goes
into the store after all that it imports. -/
inductive Step (fetch : Fetch) : Store → Store → Prop
  | ask {store : Store} {path : String} (hnew : store.get? path = none) :
      Step fetch store (store.ask path)
  | keep {store : Store} {asked : List String} {path : String} {program : Program}
      (hfetch : fetch asked path = .ok program) (hnew : store.get? path = none)
      (himports : ∀ dependency ∈ program.dependencies path,
        ∃ module, store.get? dependency = some module) :
      Step fetch store (store.keep ⟨path, program⟩)

def Steps (fetch : Fetch) : Store → Store → Prop :=
  Relation.ReflTransGen (Step fetch)

theorem Steps.keeps {fetch : Fetch} {store after : Store} (h : Steps fetch store after)
    {P : Store → Prop} (hstep : ∀ {before next}, Step fetch before next → P before → P next)
    (hstore : P store) : P after := by
  induction h with
  | refl => exact hstore
  | tail _ hlast ih => exact hstep hlast ih

theorem path_of_get? {store : Store} {path : String} {module : Module}
    (h : store.get? path = some module) : module.path = path := by
  simpa using List.find?_some h

theorem get?_keep_self {store : Store} {module : Module} (hnew : store.get? module.path = none) :
    (store.keep module).get? module.path = some module := by
  simp only [get?] at hnew
  simp [get?, keep, record, List.find?_append, hnew]

theorem get?_keep_of_ne {store : Store} {module : Module} {path : String}
    (hne : module.path ≠ path) : (store.keep module).get? path = store.get? path := by
  simp [get?, keep, record, List.find?_append, hne]

/-- What is in the store stays in it. -/
theorem Steps.get? {fetch : Fetch} {store after : Store} (h : Steps fetch store after)
    {path : String} {module : Module} (hknown : store.get? path = some module) :
    after.get? path = some module := by
  refine h.keeps (P := fun s => s.get? path = some module) ?_ hknown
  intro before next hstep hbefore
  cases hstep with
  | ask _ => exact hbefore
  | keep _ hnew _ =>
      rw [get?_keep_of_ne ?_, hbefore]
      rintro rfl
      cases hnew.symm.trans hbefore

theorem Steps.loading_eq {fetch : Fetch} {store after : Store} (h : Steps fetch store after) :
    after.loading = store.loading := by
  refine h.keeps (P := fun s => s.loading = store.loading) ?_ rfl
  intro before next hstep hbefore
  cases hstep <;> exact hbefore

/-- What a load does to the store, as far as the paths on its stack are concerned. -/
structure Traced (fetch : Fetch) (stack : List String) (store after : Store) : Prop where
  steps : Steps fetch store after
  absent : ∀ path ∈ stack, store.get? path = none → after.get? path = none

variable {fetch : Fetch}

theorem Traced.refl (stack : List String) (store : Store) : Traced fetch stack store store :=
  ⟨.refl, fun _ _ h => h⟩

theorem Traced.trans {stack : List String} {store between after : Store}
    (h : Traced fetch stack store between) (h' : Traced fetch stack between after) :
    Traced fetch stack store after :=
  ⟨Relation.ReflTransGen.trans h.steps h'.steps,
    fun path hpath hnew => h'.absent path hpath (h.absent path hpath hnew)⟩

/-- What is done for the imports of a path begins by asking for it. -/
theorem Traced.asked {stack : List String} {path : String} {store after : Store}
    (hnew : store.get? path = none) (h : Traced fetch (stack ++ [path]) (store.ask path) after) :
    Traced fetch stack store after ∧ after.get? path = none := by
  refine ⟨⟨.head (.ask hnew) h.steps, ?_⟩, ?_⟩
  · intro p hp hpnew
    exact h.absent p (List.mem_append_left _ hp) hpnew
  · exact h.absent path (List.mem_append_right _ (List.mem_singleton_self _)) hnew

mutual

theorem Loads.traced {stack : List String} {path : String} {store after : Store}
    {result : Except LoadError Module} (h : Loads fetch stack path store result after) :
    Traced fetch stack store after ∧
      ∀ module, result = .ok module → after.get? path = some module :=
  match h with
  | .known hknown => by
      refine ⟨.refl _ _, ?_⟩
      rintro module ⟨⟩
      exact hknown
  | .circular _ _ => ⟨.refl _ _, by rintro module ⟨⟩⟩
  | .refused hnew _ _ => ⟨⟨.single (.ask hnew), fun _ _ h => h⟩, by rintro module ⟨⟩⟩
  | .blocked hnew _ _ himports => ⟨(himports.traced.1.asked hnew).1, by rintro module ⟨⟩⟩
  | .loaded hnew hstack hfetch himports => by
      obtain ⟨hinner, hknown⟩ := himports.traced
      obtain ⟨htraced, habsent⟩ := hinner.asked hnew
      refine ⟨⟨.tail htraced.steps (.keep hfetch habsent (hknown rfl)), ?_⟩, ?_⟩
      · intro p hp hpnew
        have hne : path ≠ p := fun heq => hstack (heq ▸ hp)
        exact (get?_keep_of_ne hne).trans (htraced.absent p hp hpnew)
      · rintro module ⟨⟩
        exact get?_keep_self habsent

theorem LoadsAll.traced {stack paths : List String} {store after : Store}
    {outcome : Except LoadError Unit} (h : LoadsAll fetch stack paths store outcome after) :
    Traced fetch stack store after ∧
      (outcome = .ok () → ∀ path ∈ paths, ∃ module, after.get? path = some module) :=
  match h with
  | .nil => ⟨.refl _ _, by simp⟩
  | .failed hfirst => ⟨hfirst.traced.1, by rintro ⟨⟩⟩
  | .cons hfirst hrest => by
      obtain ⟨htraced, hknown⟩ := hfirst.traced
      obtain ⟨htraced', hknown'⟩ := hrest.traced
      refine ⟨htraced.trans htraced', ?_⟩
      intro hok
      exact List.forall_mem_cons.2 ⟨⟨_, htraced'.steps.get? (hknown _ rfl)⟩, hknown' hok⟩

end

/-- However many requests are made, they come down to steps. -/
theorem Follows.steps {store after : Store} (h : Follows fetch store after) :
    Steps fetch store after := by
  induction h with
  | refl => exact .refl
  | tail _ hlast ih =>
      obtain ⟨specifier, result, hrequest⟩ := hlast
      cases hrequest with
      | unresolved _ => exact ih
      | resolved _ hload => exact Relation.ReflTransGen.trans ih hload.traced.1.steps

/-- A program that does nothing but import. -/
def importing (specifiers : List String) : Program :=
  specifiers.map fun path => .load { span := {}, path }

end Store

end Custody
