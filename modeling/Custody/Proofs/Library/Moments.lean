import Custody.Proofs.Library.Loads
import Mathlib.Data.List.Nodup

/-! Loading moment by moment. The rules of loading only speak of loads that come to an end; here a load
is a sequence of moments, so that one that goes on for ever has moments as well. The two agree on every
load that ends. From one moment to the next the source is asked at most once, and only for a path that
is neither in the store nor being loaded. During a load every path that was asked for is one or the
other, and a load that has failed is over, so no path is asked for twice. -/

namespace Custody.Store

/-! ### Moments -/

/-- A module that has been fetched, with those of its imports that are still to be loaded. -/
structure Pending where
  path : String
  program : Program
  left : List String

/-- Where a request stands. The modules that are pending come innermost first. -/
inductive Moment where
  /-- A path is to be loaded. -/
  | entering (path : String) (pending : List Pending) (store : Store)
  /-- The innermost module that is pending goes on with its imports. -/
  | working (module : Pending) (pending : List Pending) (store : Store)
  /-- The request has its answer. -/
  | answered (result : Except LoadError Module) (store : Store)

/-- The paths that are being loaded, outermost first. -/
def stack (store : Store) (pending : List Pending) : List String :=
  store.loading ++ (pending.map (·.path)).reverse

theorem stack_cons (store : Store) (module : Pending) (pending : List Pending) :
    store.stack (module :: pending) = store.stack pending ++ [module.path] := by
  simp [stack]

theorem stack_congr {store after : Store} (h : after.loading = store.loading)
    (pending : List Pending) : after.stack pending = store.stack pending := by
  rw [stack, stack, h]

namespace Moment

def store : Moment → Store
  | entering _ _ store => store
  | working _ _ store => store
  | answered _ store => store

/-- A module is there: the one that waits for it goes on, or else it is the answer. -/
def resume (module : Module) : List Pending → Store → Moment
  | [], store => answered (.ok module) store
  | waiting :: pending, store => working waiting pending store

/-- A path has been loaded or not. A failure is the answer, whatever is pending. -/
def loaded : Except LoadError Module → List Pending → Store → Moment
  | .ok module, pending, store => resume module pending store
  | .error cause, _, store => answered (.error cause) store

/-- The imports of a module have been loaded or not. -/
def loadedAll (module : Pending) (pending : List Pending) :
    Except LoadError Unit → Store → Moment
  | .ok (), store => working { module with left := [] } pending store
  | .error cause, store => answered (.error cause) store

theorem store_resume (module : Module) (pending : List Pending) (store : Store) :
    (resume module pending store).store = store := by
  cases pending <;> rfl

theorem loaded_nil (result : Except LoadError Module) (store : Store) :
    loaded result [] store = answered result store := by
  cases result <;> rfl

end Moment

/-- From one moment of a load to the next. -/
inductive Advances (fetch : Fetch) : Moment → Moment → Prop
  | known {path : String} {pending : List Pending} {store : Store} {module : Module}
      (hknown : store.get? path = some module) :
      Advances fetch (.entering path pending store) (.resume module pending store)
  | circular {path : String} {pending : List Pending} {store : Store}
      (hnew : store.get? path = none) (hstack : path ∈ store.stack pending) :
      Advances fetch (.entering path pending store)
        (.answered (.error (.circular (cycleThrough (store.stack pending) path))) store)
  | refused {path : String} {pending : List Pending} {store : Store} {cause : LoadError}
      (hnew : store.get? path = none) (hstack : path ∉ store.stack pending)
      (hfetch : fetch store.asked path = .error cause) :
      Advances fetch (.entering path pending store) (.answered (.error cause) (store.ask path))
  | fetched {path : String} {pending : List Pending} {store : Store} {program : Program}
      (hnew : store.get? path = none) (hstack : path ∉ store.stack pending)
      (hfetch : fetch store.asked path = .ok program) :
      Advances fetch (.entering path pending store)
        (.working ⟨path, program, program.dependencies path⟩ pending (store.ask path))
  | next {path dependency : String} {program : Program} {left : List String}
      {pending : List Pending} {store : Store} :
      Advances fetch (.working ⟨path, program, dependency :: left⟩ pending store)
        (.entering dependency (⟨path, program, left⟩ :: pending) store)
  | kept {path : String} {program : Program} {pending : List Pending} {store : Store} :
      Advances fetch (.working ⟨path, program, []⟩ pending store)
        (.resume ⟨path, program⟩ pending (store.keep ⟨path, program⟩))

/-- From one moment of a load to a later one. -/
def Runs (fetch : Fetch) : Moment → Moment → Prop :=
  Relation.ReflTransGen (Advances fetch)

/-- From one moment to the next, where a request may follow one that is over. -/
inductive Turns (fetch : Fetch) : Moment → Moment → Prop
  | advance {moment later : Moment} (h : Advances fetch moment later) : Turns fetch moment later
  | request {specifier path : String} {store : Store} {result : Except LoadError Module}
      (hresolve : store.resolve specifier = .ok path) :
      Turns fetch (.answered result store) (.entering path [] store)
  | unresolved {specifier : String} {store : Store} {result : Except LoadError Module}
      {cause : LoadError} (hresolve : store.resolve specifier = .error cause) :
      Turns fetch (.answered result store) (.answered (.error cause) store)

/-- From one moment to a later one, over any number of requests. -/
def Elapses (fetch : Fetch) : Moment → Moment → Prop :=
  Relation.ReflTransGen (Turns fetch)

variable {fetch : Fetch}

theorem Runs.elapses {moment later : Moment} (h : Runs fetch moment later) :
    Elapses fetch moment later :=
  Relation.ReflTransGen.mono (fun _ _ hadvance => Turns.advance hadvance) _ _ h

/-! ### Loads that come to an end -/

mutual

theorem Loads.runs {stack : List String} {path : String} {store after : Store}
    {result : Except LoadError Module} (h : Loads fetch stack path store result after)
    {pending : List Pending} (hstack : stack = store.stack pending) :
    Runs fetch (.entering path pending store) (.loaded result pending after) :=
  match h with
  | .known hknown => .single (.known hknown)
  | .circular hnew hmem => by
      rw [hstack] at hmem ⊢
      exact .single (.circular hnew hmem)
  | .refused hnew hout hfetch => .single (.refused hnew (hstack ▸ hout) hfetch)
  | .blocked hnew hout hfetch himports =>
      .head (.fetched hnew (hstack ▸ hout) hfetch) (himports.runs (by rw [hstack]; rfl))
  | .loaded hnew hout hfetch himports =>
      .tail (.head (.fetched hnew (hstack ▸ hout) hfetch) (himports.runs (by rw [hstack]; rfl))) .kept

theorem LoadsAll.runs {stack paths : List String} {store after : Store}
    {outcome : Except LoadError Unit} (h : LoadsAll fetch stack paths store outcome after)
    {path : String} {program : Program} {pending : List Pending}
    (hstack : stack = store.stack pending ++ [path]) :
    Runs fetch (.working ⟨path, program, paths⟩ pending store)
      (.loadedAll ⟨path, program, paths⟩ pending outcome after) :=
  match h with
  | .nil => .refl
  | .failed hfirst => .head .next (hfirst.runs (by rw [stack_cons, hstack]))
  | .cons hfirst hrest => by
      refine .head .next (Relation.ReflTransGen.trans (hfirst.runs ?_) (hrest.runs ?_))
      · rw [stack_cons, hstack]
      · rw [stack_congr hfirst.traced.1.steps.loading_eq, hstack]

end

/-- What is left to do at a moment comes to an end by the rules of loading. -/
inductive Finishes (fetch : Fetch) : Moment → Except LoadError Module → Store → Prop
  | answered {result : Except LoadError Module} {store : Store} :
      Finishes fetch (.answered result store) result store
  | entering {path : String} {pending : List Pending} {store between after : Store}
      {found result : Except LoadError Module}
      (hload : Loads fetch (store.stack pending) path store found between)
      (hrest : Finishes fetch (.loaded found pending between) result after) :
      Finishes fetch (.entering path pending store) result after
  | failing {module : Pending} {pending : List Pending} {store after : Store} {cause : LoadError}
      (hleft : LoadsAll fetch (store.stack (module :: pending)) module.left store (.error cause)
        after) :
      Finishes fetch (.working module pending store) (.error cause) after
  | keeping {module : Pending} {pending : List Pending} {store between after : Store}
      {result : Except LoadError Module}
      (hleft : LoadsAll fetch (store.stack (module :: pending)) module.left store (.ok ()) between)
      (hrest : Finishes fetch (.resume ⟨module.path, module.program⟩ pending
        (between.keep ⟨module.path, module.program⟩)) result after) :
      Finishes fetch (.working module pending store) result after

/-- If the next moment comes to an end by the rules, so does this one. -/
theorem Advances.finishes {moment later : Moment} {result : Except LoadError Module} {after : Store}
    (h : Advances fetch moment later) (hlater : Finishes fetch later result after) :
    Finishes fetch moment result after := by
  cases h with
  | known hknown => exact .entering (.known hknown) hlater
  | circular hnew hstack => exact .entering (.circular hnew hstack) hlater
  | refused hnew hstack hfetch => exact .entering (.refused hnew hstack hfetch) hlater
  | fetched hnew hstack hfetch =>
      cases hlater with
      | failing hleft =>
          rw [stack_cons] at hleft
          exact .entering (.blocked hnew hstack hfetch hleft) .answered
      | keeping hleft hrest =>
          rw [stack_cons] at hleft
          exact .entering (.loaded hnew hstack hfetch hleft) hrest
  | next =>
      cases hlater with
      | @entering _ _ _ _ _ found _ hload hrest =>
          cases found with
          | error cause =>
              cases hrest
              exact .failing (.failed hload)
          | ok module =>
              have hloading := hload.traced.1.steps.loading_eq
              cases hrest with
              | failing hleft =>
                  rw [stack_congr hloading] at hleft
                  exact .failing (.cons hload hleft)
              | keeping hleft hrest =>
                  rw [stack_congr hloading] at hleft
                  exact .keeping (.cons hload hleft) hrest
  | kept => exact .keeping .nil hlater

theorem Runs.finishes {moment : Moment} {result : Except LoadError Module} {after : Store}
    (h : Runs fetch moment (.answered result after)) : Finishes fetch moment result after := by
  induction h using Relation.ReflTransGen.head_induction_on with
  | refl => exact .answered
  | head hfirst _ ih => exact hfirst.finishes ih

/-- The loads that come to an end are the same, moment by moment and by the rules. -/
theorem loads_iff_runs {path : String} {store after : Store} {result : Except LoadError Module} :
    Loads fetch store.loading path store result after ↔
      Runs fetch (.entering path [] store) (.answered result after) := by
  have hstack : store.loading = store.stack [] := by simp [stack]
  constructor
  · intro h
    have hruns := h.runs hstack
    rwa [Moment.loaded_nil] at hruns
  · intro h
    cases h.finishes with
    | entering hload hrest =>
        rw [Moment.loaded_nil] at hrest
        cases hrest
        rwa [hstack]

theorem Requests.elapses {specifier : String} {store after : Store}
    {result earlier : Except LoadError Module} (h : Requests fetch specifier store result after) :
    Elapses fetch (.answered earlier store) (.answered result after) := by
  cases h with
  | unresolved hresolve => exact .single (.unresolved hresolve)
  | resolved hresolve hload => exact .head (.request hresolve) (loads_iff_runs.1 hload).elapses

/-! ### What is asked for -/

/-- Nothing is taken out of the store, and the source has only been asked for what was not in it. -/
structure Grown (store after : Store) : Prop where
  asked : ∃ fresh, after.asked = store.asked ++ fresh ∧ ∀ path ∈ fresh, store.get? path = none
  known : ∀ path module, store.get? path = some module → after.get? path = some module

theorem Grown.refl (store : Store) : Grown store store :=
  ⟨⟨[], by simp, by simp⟩, fun _ _ h => h⟩

theorem Grown.trans {store between after : Store} (h : Grown store between)
    (h' : Grown between after) : Grown store after := by
  obtain ⟨fresh, hasked, hfresh⟩ := h.asked
  obtain ⟨fresh', hasked', hfresh'⟩ := h'.asked
  refine ⟨⟨fresh ++ fresh', by rw [hasked', hasked, List.append_assoc], ?_⟩,
    fun path module hknown => h'.known path module (h.known path module hknown)⟩
  intro path hpath
  rcases List.mem_append.1 hpath with hpath | hpath
  · exact hfresh path hpath
  · cases hstore : store.get? path with
    | none => rfl
    | some module => cases (hfresh' path hpath).symm.trans (h.known path module hstore)

theorem Grown.ask {store : Store} {path : String} (hnew : store.get? path = none) :
    Grown store (store.ask path) :=
  ⟨⟨[path], rfl, by simpa using hnew⟩, fun _ _ h => h⟩

theorem Grown.keep (store : Store) (module : Module) : Grown store (store.keep module) := by
  refine ⟨⟨[], by simp [Store.keep, record], by simp⟩, fun path other hknown => ?_⟩
  simp only [get?] at hknown
  simp [get?, Store.keep, record, List.find?_append, hknown]

theorem exists_get?_keep_self (store : Store) (module : Module) :
    ∃ found, (store.keep module).get? module.path = some found := by
  cases hstore : store.get? module.path with
  | none => exact ⟨module, get?_keep_self hstore⟩
  | some found => exact ⟨found, (Grown.keep store module).known _ _ hstore⟩

theorem Advances.grown {moment later : Moment} (h : Advances fetch moment later) :
    Grown moment.store later.store := by
  cases h with
  | known _ =>
      rw [Moment.store_resume]
      exact .refl _
  | circular _ _ => exact .refl _
  | refused hnew _ _ => exact .ask hnew
  | fetched hnew _ _ => exact .ask hnew
  | next => exact .refl _
  | kept =>
      rw [Moment.store_resume]
      exact .keep _ _

theorem Elapses.grown {moment later : Moment} (h : Elapses fetch moment later) :
    Grown moment.store later.store := by
  induction h with
  | refl => exact .refl _
  | tail _ hlast ih =>
      refine ih.trans ?_
      cases hlast with
      | advance hadvance => exact hadvance.grown
      | request _ => exact .refl _
      | unresolved _ => exact .refl _

/-- A path that was asked for is in the store or pending, unless the request is over. -/
def Moment.Accounts : Moment → String → Prop
  | entering _ pending store, path =>
      (∃ module, store.get? path = some module) ∨ path ∈ pending.map (·.path)
  | working module pending store, path =>
      (∃ module, store.get? path = some module) ∨ path ∈ (module :: pending).map (·.path)
  | answered _ _, _ => True

/-- Since the request was made with the store `start`, no path has been asked for twice, and all that
have been are accounted for. -/
def Moment.AskedOnce (start : Store) (moment : Moment) : Prop :=
  ∃ fresh, moment.store.asked = start.asked ++ fresh ∧ fresh.Nodup ∧
    ∀ path ∈ fresh, moment.Accounts path

theorem Moment.accounts_resume {module : Module} {pending : List Pending} {store : Store}
    {path : String}
    (h : (∃ module, store.get? path = some module) ∨ path ∈ pending.map (·.path)) :
    (Moment.resume module pending store).Accounts path := by
  cases pending with
  | nil => trivial
  | cons waiting pending => exact h

/-- A path that is neither in the store nor being loaded has not been asked for. -/
theorem Moment.AskedOnce.ask {start store : Store} {path : String} {pending : List Pending}
    (h : (Moment.entering path pending store).AskedOnce start) (hnew : store.get? path = none)
    (hstack : path ∉ store.stack pending) :
    ∃ fresh, (store.ask path).asked = start.asked ++ fresh ∧ fresh.Nodup ∧
      ∀ p ∈ fresh, (∃ module, store.get? p = some module) ∨ p ∈ path :: pending.map (·.path) := by
  obtain ⟨fresh, hasked, hnodup, haccounts⟩ := h
  have hout : path ∉ pending.map (·.path) :=
    fun hmem => hstack (List.mem_append_right _ (List.mem_reverse.2 hmem))
  have hpath : path ∉ fresh := by
    intro hmem
    rcases haccounts path hmem with ⟨module, hknown⟩ | hpending
    · cases hnew.symm.trans hknown
    · exact hout hpending
  refine ⟨fresh ++ [path], ?_, List.concat_eq_append ▸ hnodup.concat hpath, ?_⟩
  · rw [← List.append_assoc, ← hasked]
    rfl
  · intro p hp
    rcases List.mem_append.1 hp with hp | hp
    · exact (haccounts p hp).imp_right (List.mem_cons_of_mem _)
    · exact .inr (List.mem_singleton.1 hp ▸ List.mem_cons_self)

theorem Advances.askedOnce {start : Store} {moment later : Moment}
    (h : Advances fetch moment later) (hmoment : moment.AskedOnce start) :
    later.AskedOnce start := by
  cases h with
  | known _ =>
      obtain ⟨fresh, hasked, hnodup, haccounts⟩ := hmoment
      refine ⟨fresh, ?_, hnodup, fun p hp => Moment.accounts_resume (haccounts p hp)⟩
      rw [Moment.store_resume]
      exact hasked
  | circular _ _ =>
      obtain ⟨fresh, hasked, hnodup, -⟩ := hmoment
      exact ⟨fresh, hasked, hnodup, fun _ _ => trivial⟩
  | refused hnew hstack _ =>
      obtain ⟨fresh, hasked, hnodup, -⟩ := hmoment.ask hnew hstack
      exact ⟨fresh, hasked, hnodup, fun _ _ => trivial⟩
  | fetched hnew hstack _ => exact hmoment.ask hnew hstack
  | next => exact hmoment
  | @kept path program pending store =>
      obtain ⟨fresh, hasked, hnodup, haccounts⟩ := hmoment
      refine ⟨fresh, ?_, hnodup, fun p hp => Moment.accounts_resume ?_⟩
      · rw [Moment.store_resume]
        exact hasked
      · rcases haccounts p hp with ⟨module, hknown⟩ | hpending
        · exact .inl ⟨module, (Grown.keep store ⟨path, program⟩).known _ _ hknown⟩
        · rcases List.mem_cons.1 hpending with rfl | hpending
          · exact .inl (exists_get?_keep_self store ⟨p, program⟩)
          · exact .inr hpending

theorem Runs.askedOnce {path : String} {store : Store} {now : Moment}
    (h : Runs fetch (.entering path [] store) now) : now.AskedOnce store := by
  induction h with
  | refl => exact ⟨[], by simp [Moment.store], List.nodup_nil, by simp⟩
  | tail _ hlast ih => exact hlast.askedOnce ih

/-- A request that comes to an end asks for no path that is in the store, and for none twice. -/
theorem Requests.asked {specifier : String} {store after : Store}
    {result : Except LoadError Module} (h : Requests fetch specifier store result after) :
    ∃ fresh, after.asked = store.asked ++ fresh ∧ fresh.Nodup ∧
      ∀ path ∈ fresh, store.get? path = none := by
  cases h with
  | unresolved _ => exact ⟨[], by simp, List.nodup_nil, by simp⟩
  | resolved _ hload =>
      have hruns := loads_iff_runs.1 hload
      obtain ⟨fresh, hasked, hnodup, -⟩ := hruns.askedOnce
      obtain ⟨fresh', hasked', hnew⟩ := hruns.elapses.grown.asked
      have hsame : fresh = fresh' := List.append_cancel_left (hasked.symm.trans hasked')
      exact ⟨fresh, hasked, hnodup, hsame ▸ hnew⟩

/-- Whatever the source answers: a path that is in the store at some moment is not asked for at any
later one, over any number of requests. From the beginning of a request to any moment of it, whether it
succeeds, fails or goes on for ever, no path is asked for twice. -/
theorem fetched_at_most_once :
    (∀ (fetch : Fetch) (moment later : Moment), Elapses fetch moment later →
      ∃ fresh, later.store.asked = moment.store.asked ++ fresh ∧
        ∀ path ∈ fresh, moment.store.get? path = none) ∧
    (∀ (fetch : Fetch) (path : String) (store : Store) (now : Moment),
      Runs fetch (.entering path [] store) now →
        ∃ fresh, now.store.asked = store.asked ++ fresh ∧ fresh.Nodup) ∧
    ∀ (source : Source) (specifier : String) (store : Store),
      ∃ fresh, (load source specifier store).2.asked = store.asked ++ fresh ∧ fresh.Nodup ∧
        ∀ path ∈ fresh, store.get? path = none := by
  refine ⟨fun fetch moment later h => h.grown.asked, ?_, ?_⟩
  · intro fetch path store now h
    obtain ⟨fresh, hasked, hnodup, -⟩ := h.askedOnce
    exact ⟨fresh, hasked, hnodup⟩
  · intro source specifier store
    have hrequests : Requests source.fetch specifier store (load source specifier store).1
        (load source specifier store).2 := requests_iff.2 rfl
    exact hrequests.asked

/-- A load without end, where every module imports one below it: its first moments. After it, modules
that import one another several times are loaded, and a module that imports one of them and one that
is missing. -/
theorem fetched_at_most_once_diamond :
    let endless : Fetch := fun _ path => .ok (importing [path ++ "/x"])
    let source := Source.ofLists [("a", importing ["./b", "c", "b"]), ("b", importing ["d"]),
      ("c", importing ["d"]), ("d", importing []), ("e", importing ["a", "gone"])] []
    let store : Store := {
      modules := [⟨"d", importing []⟩, ⟨"b", importing ["d"]⟩, ⟨"c", importing ["d"]⟩,
        ⟨"a", importing ["./b", "c", "b"]⟩]
      graph := { nodes := [⟨"a", ["b", "c", "b"], []⟩, ⟨"b", ["d"], []⟩, ⟨"c", ["d"], []⟩,
        ⟨"d", [], []⟩] }
      asked := ["a", "b", "d", "c"] }
    (∃ now, Runs endless (.entering "a" [] {}) now ∧ now.store.asked = ["a", "a/x"] ∧
      now.store.asked.Nodup) ∧
    load source "a" {} = (.ok ⟨"a", importing ["./b", "c", "b"]⟩, store) ∧
    store.asked.Nodup ∧
    load source "e" store = (.error (.notFound "gone"), (store.ask "e").ask "gone") ∧
    ∀ path ∈ ["e", "gone"], store.get? path = none := by
  intro endless source store
  have hfirst : load source "a" {} = (.ok ⟨"a", importing ["./b", "c", "b"]⟩, store) := by cbv
  have hsecond : load source "e" store =
      (.error (.notFound "gone"), (store.ask "e").ask "gone") := by cbv
  refine ⟨?_, hfirst, ?_, hsecond, ?_⟩
  · have hdeps : (importing ["a" ++ "/x"]).dependencies "a" = ["a/x"] := by cbv
    have hbegins : Runs endless (.entering "a" [] {})
        (.working ⟨"a/x", importing ["a/x/x"], (importing ["a/x/x"]).dependencies "a/x"⟩
          [⟨"a", importing ["a/x"], []⟩] (({} : Store).ask "a" |>.ask "a/x")) := by
      refine .head (.fetched rfl (by simp [stack]) rfl) ?_
      rw [hdeps]
      exact .head .next (.single (.fetched rfl (by simp [stack, ask]) rfl))
    obtain ⟨fresh, hasked, hnodup⟩ := fetched_at_most_once.2.1 _ _ _ _ hbegins
    have hfresh : fresh = ["a", "a/x"] := hasked.symm
    rw [hfresh] at hnodup
    exact ⟨_, hbegins, rfl, hnodup⟩
  · obtain ⟨fresh, hasked, hnodup, -⟩ := fetched_at_most_once.2.2 source "a" {}
    rw [hfirst] at hasked
    have hfresh : fresh = store.asked := hasked.symm
    exact hfresh ▸ hnodup
  · have helapses : Elapses source.fetch (.answered (.ok ⟨"a", importing ["./b", "c", "b"]⟩) store)
        (.answered (.error (.notFound "gone")) ((store.ask "e").ask "gone")) :=
      (requests_iff.2 hsecond).elapses
    obtain ⟨fresh, hasked, hnew⟩ := fetched_at_most_once.1 _ _ _ helapses
    have hfresh : fresh = ["e", "gone"] := List.append_cancel_left hasked.symm
    exact hfresh ▸ hnew

end Custody.Store
