import Custody.Proofs.Library.Loads

/-! Loading with the stack in the store. A path is put on the stack of the store before its imports
are loaded, and taken off it again after that, also if one of them has failed. Loading with the stack
as an argument is the same: the stack is found as it was, however a load ends. -/

namespace Custody.Store

/-! ### The rules -/

mutual

/-- Loading a path while the paths on the stack of the store are being loaded. -/
inductive Pushes (fetch : Fetch) : (path : String) → Store → Except LoadError Module → Store → Prop
  | known {path : String} {store : Store} {module : Module}
      (hknown : store.get? path = some module) : Pushes fetch path store (.ok module) store
  | circular {path : String} {store : Store} (hnew : store.get? path = none)
      (hstack : path ∈ store.loading) :
      Pushes fetch path store (.error (.circular (cycleThrough store.loading path))) store
  | refused {path : String} {store : Store} {cause : LoadError} (hnew : store.get? path = none)
      (hstack : path ∉ store.loading) (hfetch : fetch store.asked path = .error cause) :
      Pushes fetch path store (.error cause) (store.ask path)
  | blocked {path : String} {store inside : Store} {program : Program} {cause : LoadError}
      (hnew : store.get? path = none) (hstack : path ∉ store.loading)
      (hfetch : fetch store.asked path = .ok program)
      (himports : PushesAll fetch (program.dependencies path) ((store.ask path).enter path)
        (.error cause) inside) :
      Pushes fetch path store (.error cause) inside.leave
  | loaded {path : String} {store inside : Store} {program : Program}
      (hnew : store.get? path = none) (hstack : path ∉ store.loading)
      (hfetch : fetch store.asked path = .ok program)
      (himports : PushesAll fetch (program.dependencies path) ((store.ask path).enter path)
        (.ok ()) inside) :
      Pushes fetch path store (.ok ⟨path, program⟩) (inside.leave.keep ⟨path, program⟩)

/-- Loading paths in turn, up to the first that fails. -/
inductive PushesAll (fetch : Fetch) :
    (paths : List String) → Store → Except LoadError Unit → Store → Prop
  | nil {store : Store} : PushesAll fetch [] store (.ok ()) store
  | failed {path : String} {paths : List String} {store after : Store} {cause : LoadError}
      (hfirst : Pushes fetch path store (.error cause) after) :
      PushesAll fetch (path :: paths) store (.error cause) after
  | cons {path : String} {paths : List String} {store between after : Store} {module : Module}
      {outcome : Except LoadError Unit} (hfirst : Pushes fetch path store (.ok module) between)
      (hrest : PushesAll fetch paths between outcome after) :
      PushesAll fetch (path :: paths) store outcome after

end

/-- A request for the module that a specifier names, as seen from the path on top of the stack. -/
inductive PushRequests (fetch : Fetch) (specifier : String) (store : Store) :
    Except LoadError Module → Store → Prop
  | unresolved {cause : LoadError} (hresolve : store.resolve specifier = .error cause) :
      PushRequests fetch specifier store (.error cause) store
  | resolved {path : String} {result : Except LoadError Module} {after : Store}
      (hresolve : store.resolve specifier = .ok path)
      (hload : Pushes fetch path store result after) :
      PushRequests fetch specifier store result after

/-- Any number of requests one after the other, whether they succeed or fail. -/
def PushFollows (fetch : Fetch) : Store → Store → Prop :=
  Relation.ReflTransGen fun store after =>
    ∃ specifier result, PushRequests fetch specifier store result after

/-! ### The stack as an argument -/

variable {fetch : Fetch}

/-- The store with another stack. -/
def under (store : Store) (stack : List String) : Store :=
  { store with loading := stack }

theorem under_of_loading {store : Store} {stack : List String} (h : store.loading = stack) :
    store.under stack = store := by
  subst h
  rfl

theorem leave_under (store : Store) (stack : List String) (path : String) :
    (store.under (stack ++ [path])).leave = store.under stack := by
  simp [leave, under]

mutual

theorem Loads.pushes {stack : List String} {path : String} {store after : Store}
    {result : Except LoadError Module} (h : Loads fetch stack path store result after) :
    Pushes fetch path (store.under stack) result (after.under stack) :=
  match h with
  | .known hknown => .known hknown
  | .circular hnew hstack => .circular hnew hstack
  | .refused hnew hstack hfetch => .refused hnew hstack hfetch
  | .blocked hnew hstack hfetch himports => by
      have hblocked : Pushes fetch path (store.under stack) _ _ :=
        .blocked hnew hstack hfetch himports.pushesAll
      rw [leave_under] at hblocked
      exact hblocked
  | .loaded hnew hstack hfetch himports => by
      have hloaded : Pushes fetch path (store.under stack) _ _ :=
        .loaded hnew hstack hfetch himports.pushesAll
      rw [leave_under] at hloaded
      exact hloaded

theorem LoadsAll.pushesAll {stack paths : List String} {store after : Store}
    {outcome : Except LoadError Unit} (h : LoadsAll fetch stack paths store outcome after) :
    PushesAll fetch paths (store.under stack) outcome (after.under stack) :=
  match h with
  | .nil => .nil
  | .failed hfirst => .failed hfirst.pushes
  | .cons hfirst hrest => .cons hfirst.pushes hrest.pushesAll

end

mutual

/-- However a load ends, the stack is what it was, and what stands on it is all that is used of it. -/
theorem Pushes.loads {path : String} {store after : Store} {result : Except LoadError Module}
    (h : Pushes fetch path store result after) :
    after.loading = store.loading ∧
      ∀ stack, Loads fetch store.loading path (store.under stack) result (after.under stack) :=
  match h with
  | .known hknown => ⟨rfl, fun _ => .known hknown⟩
  | .circular hnew hstack => ⟨rfl, fun _ => .circular hnew hstack⟩
  | .refused hnew hstack hfetch => ⟨rfl, fun _ => .refused hnew hstack hfetch⟩
  | .blocked hnew hstack hfetch himports => by
      obtain ⟨hloading, hall⟩ := himports.loadsAll
      refine ⟨?_, fun stack => .blocked hnew hstack hfetch (hall stack)⟩
      show List.dropLast _ = _
      rw [hloading]
      exact List.dropLast_concat
  | .loaded hnew hstack hfetch himports => by
      obtain ⟨hloading, hall⟩ := himports.loadsAll
      refine ⟨?_, fun stack => ?_⟩
      · show List.dropLast _ = _
        rw [hloading]
        exact List.dropLast_concat
      · exact @Loads.loaded fetch _ path (store.under stack) _ _ hnew hstack hfetch (hall stack)

theorem PushesAll.loadsAll {paths : List String} {store after : Store}
    {outcome : Except LoadError Unit} (h : PushesAll fetch paths store outcome after) :
    after.loading = store.loading ∧
      ∀ stack, LoadsAll fetch store.loading paths (store.under stack) outcome (after.under stack) :=
  match h with
  | .nil => ⟨rfl, fun _ => .nil⟩
  | .failed hfirst => ⟨hfirst.loads.1, fun stack => .failed (hfirst.loads.2 stack)⟩
  | .cons hfirst hrest => by
      obtain ⟨hbetween, hload⟩ := hfirst.loads
      obtain ⟨hafter, hall⟩ := hrest.loadsAll
      rw [hbetween] at hall
      exact ⟨hafter.trans hbetween, fun stack => .cons (hload stack) (hall stack)⟩

end

/-- The loader that is given the stack does what the one that keeps it does. -/
theorem pushes_iff {path : String} {store after : Store} {result : Except LoadError Module} :
    Pushes fetch path store result after ↔ Loads fetch store.loading path store result after := by
  constructor
  · intro h
    obtain ⟨hloading, hload⟩ := h.loads
    have hsame := hload store.loading
    rwa [under_of_loading rfl, under_of_loading hloading] at hsame
  · intro h
    have hloading : after.loading = store.loading := h.traced.1.steps.loading_eq
    have hpushes := h.pushes
    rwa [under_of_loading rfl, under_of_loading hloading] at hpushes

theorem pushFollows_iff {store after : Store} :
    PushFollows fetch store after ↔ Follows fetch store after := by
  have hrequests : ∀ before next, (∃ specifier result,
      PushRequests fetch specifier before result next) ↔
        ∃ specifier result, Requests fetch specifier before result next := by
    intro before next
    constructor
    · rintro ⟨specifier, result, hunresolved | ⟨hresolve, hload⟩⟩
      · exact ⟨specifier, _, .unresolved hunresolved⟩
      · exact ⟨specifier, result, .resolved hresolve (pushes_iff.1 hload)⟩
    · rintro ⟨specifier, result, hunresolved | ⟨hresolve, hload⟩⟩
      · exact ⟨specifier, _, .unresolved hunresolved⟩
      · exact ⟨specifier, result, .resolved hresolve (pushes_iff.2 hload)⟩
  simp only [PushFollows, Follows, hrequests]

theorem pushFollows_of_load {source : Source} {specifier : String} {store after : Store}
    {result : Except LoadError Module} (h : load source specifier store = (result, after)) :
    PushFollows source.fetch store after :=
  pushFollows_iff.2 (follows_of_load h)

end Custody.Store
