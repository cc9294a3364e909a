import Custody.Proofs.Library.Consistent

/-! The store only saves work. What a load gives is compared with following the imports without any
memory of modules. All that a module of the store imports came in before it, so nothing below it
leads to a path that is being loaded, and following its imports again would end well. -/

namespace Custody.Store

/-- The answers of a source do not depend on what it was asked before. -/
def Steady (fetch : Fetch) : Prop :=
  ∀ asked asked' path, fetch asked path = fetch asked' path

/-! ### Loading without memory -/

mutual

/-- What following the imports of a path gives, when no module is remembered. -/
inductive Yields (answers : String → Except LoadError Program) :
    (stack : List String) → (path : String) → Except LoadError Module → Prop
  | circular {stack : List String} {path : String} (hstack : path ∈ stack) :
      Yields answers stack path (.error (.circular (cycleThrough stack path)))
  | refused {stack : List String} {path : String} {cause : LoadError} (hstack : path ∉ stack)
      (hanswer : answers path = .error cause) : Yields answers stack path (.error cause)
  | blocked {stack : List String} {path : String} {program : Program} {cause : LoadError}
      (hstack : path ∉ stack) (hanswer : answers path = .ok program)
      (himports : YieldsAll answers (stack ++ [path]) (program.dependencies path) (.error cause)) :
      Yields answers stack path (.error cause)
  | loaded {stack : List String} {path : String} {program : Program}
      (hstack : path ∉ stack) (hanswer : answers path = .ok program)
      (himports : YieldsAll answers (stack ++ [path]) (program.dependencies path) (.ok ())) :
      Yields answers stack path (.ok ⟨path, program⟩)

inductive YieldsAll (answers : String → Except LoadError Program) :
    (stack paths : List String) → Except LoadError Unit → Prop
  | nil {stack : List String} : YieldsAll answers stack [] (.ok ())
  | failed {stack : List String} {path : String} {paths : List String} {cause : LoadError}
      (hfirst : Yields answers stack path (.error cause)) :
      YieldsAll answers stack (path :: paths) (.error cause)
  | cons {stack : List String} {path : String} {paths : List String} {module : Module}
      {outcome : Except LoadError Unit} (hfirst : Yields answers stack path (.ok module))
      (hrest : YieldsAll answers stack paths outcome) :
      YieldsAll answers stack (path :: paths) outcome

end

variable {answers : String → Except LoadError Program} {fetch : Fetch} {store : Store}

mutual

theorem Yields.unique {stack : List String} {path : String}
    {result result' : Except LoadError Module} (h : Yields answers stack path result)
    (h' : Yields answers stack path result') : result = result' :=
  match h with
  | .circular hstack => by
      cases h' with
      | circular _ => rfl
      | refused hstack' _ => exact absurd hstack hstack'
      | blocked hstack' _ _ => exact absurd hstack hstack'
      | loaded hstack' _ _ => exact absurd hstack hstack'
  | .refused hstack hanswer => by
      cases h' with
      | circular hstack' => exact absurd hstack' hstack
      | refused _ hanswer' => cases hanswer.symm.trans hanswer'; rfl
      | blocked _ hanswer' _ => cases hanswer.symm.trans hanswer'
      | loaded _ hanswer' _ => cases hanswer.symm.trans hanswer'
  | .blocked hstack hanswer himports => by
      cases h' with
      | circular hstack' => exact absurd hstack' hstack
      | refused _ hanswer' => cases hanswer.symm.trans hanswer'
      | blocked _ hanswer' himports' =>
          cases hanswer.symm.trans hanswer'
          cases himports.unique himports'
          rfl
      | loaded _ hanswer' himports' =>
          cases hanswer.symm.trans hanswer'
          cases himports.unique himports'
  | .loaded hstack hanswer himports => by
      cases h' with
      | circular hstack' => exact absurd hstack' hstack
      | refused _ hanswer' => cases hanswer.symm.trans hanswer'
      | blocked _ hanswer' himports' =>
          cases hanswer.symm.trans hanswer'
          cases himports.unique himports'
      | loaded _ hanswer' _ => cases hanswer.symm.trans hanswer'; rfl

theorem YieldsAll.unique {stack paths : List String} {outcome outcome' : Except LoadError Unit}
    (h : YieldsAll answers stack paths outcome) (h' : YieldsAll answers stack paths outcome') :
    outcome = outcome' :=
  match h with
  | .nil => by cases h'; rfl
  | .failed hfirst => by
      cases h' with
      | failed hfirst' => cases hfirst.unique hfirst'; rfl
      | cons hfirst' _ => cases hfirst.unique hfirst'
  | .cons hfirst hrest => by
      cases h' with
      | failed hfirst' => cases hfirst.unique hfirst'
      | cons _ hrest' => exact hrest.unique hrest'

end

theorem yieldsAll_ok {stack paths : List String}
    (h : ∀ path ∈ paths, ∃ module, Yields answers stack path (.ok module)) :
    YieldsAll answers stack paths (.ok ()) := by
  induction paths with
  | nil => exact .nil
  | cons path paths ih =>
      obtain ⟨module, hfirst⟩ := h path List.mem_cons_self
      exact .cons hfirst (ih fun p hp => h p (List.mem_cons_of_mem _ hp))

/-! ### What the modules of the store stand for -/

/-- The modules of the store are what the source answers, each after those it imports. -/
structure Sound (answers : String → Except LoadError Program) (store : Store) : Prop where
  ordered : store.Ordered
  answered : ∀ module ∈ store.modules, answers module.path = .ok module.program

theorem sound_of_modules_eq_nil (h : store.modules = []) : store.Sound answers :=
  ⟨ordered_of_modules_eq_nil h, by simp [h]⟩

theorem Sound.step {after : Store} (hanswers : ∀ asked path, fetch asked path = answers path)
    (h : store.Sound answers) (hstep : Step fetch store after) : after.Sound answers := by
  refine ⟨h.ordered.step hstep, ?_⟩
  cases hstep with
  | ask _ => exact h.answered
  | keep hfetch _ _ =>
      intro module hmem
      rcases List.mem_append.1 hmem with hold | hlast
      · exact h.answered module hold
      · cases List.mem_singleton.1 hlast
        exact (hanswers _ _).symm.trans hfetch

theorem Sound.steps {after : Store} (hanswers : ∀ asked path, fetch asked path = answers path)
    (h : store.Sound answers) (hsteps : Steps fetch store after) : after.Sound answers :=
  hsteps.keeps (fun hstep hbefore => hbefore.step hanswers hstep) h

theorem outside_of_split {front back : List Module} {module : Module} {path : String}
    (h : path ∉ (front ++ module :: back).map (·.path)) :
    path ∉ front.map (·.path) ∧ path ≠ module.path := by
  rw [List.map_append, List.map_cons, List.mem_append, List.mem_cons] at h
  exact ⟨fun hin => h (.inl hin), fun heq => h (.inr (.inl heq))⟩

/-- Following the imports of a module of the store, while none of the modules up to it is being
loaded, gives this module. -/
theorem Sound.yields_of_split (h : store.Sound answers) {front back : List Module} {module : Module}
    (hsplit : store.modules = front ++ module :: back) {stack : List String}
    (hstack : ∀ path ∈ stack, path ∉ front.map (·.path) ∧ path ≠ module.path) :
    Yields answers stack module.path (.ok module) := by
  -- the imports of the module are in front of it, where the induction goes on
  induction hlength : front.length using Nat.strong_induction_on
    generalizing front module back stack with
  | _ length ih =>
      have hmem : module ∈ store.modules := by simp [hsplit]
      refine .loaded (fun hin => (hstack _ hin).2 rfl) (h.answered module hmem) ?_
      refine yieldsAll_ok fun dependency hdep => ?_
      have hfront := h.ordered.importsEarlier front module back hsplit dependency hdep
      obtain ⟨imported, himported, rfl⟩ := List.mem_map.1 hfront
      obtain ⟨before, between, rfl⟩ := List.append_of_mem himported
      refine ⟨imported, ih before.length ?_ (by simpa using hsplit) ?_ rfl⟩
      · rw [← hlength, List.length_append, List.length_cons]
        omega
      · intro path hpath
        rcases List.mem_append.1 hpath with hold | hlast
        · exact outside_of_split (hstack path hold).1
        · exact outside_of_split (List.mem_singleton.1 hlast ▸ h.ordered.path_not_in_front hsplit)

theorem Sound.yields_of_known (h : store.Sound answers) {path : String} {module : Module}
    (hknown : store.get? path = some module) {stack : List String}
    (hstack : ∀ p ∈ stack, store.get? p = none) : Yields answers stack path (.ok module) := by
  obtain ⟨hmem, rfl⟩ := h.ordered.get?_eq_some_iff.1 hknown
  obtain ⟨front, back, hsplit⟩ := List.append_of_mem hmem
  refine h.yields_of_split hsplit ?_
  intro p hp
  have habsent := get?_eq_none_iff.1 (hstack p hp)
  rw [paths, hsplit] at habsent
  exact outside_of_split habsent

/-! ### The store against no memory -/

theorem absent_ask {path : String} {stack : List String} (hnew : store.get? path = none)
    (hstack : ∀ p ∈ stack, store.get? p = none) :
    ∀ p ∈ stack ++ [path], (store.ask path).get? p = none := by
  intro p hp
  rcases List.mem_append.1 hp with hold | hlast
  · exact hstack p hold
  · exact List.mem_singleton.1 hlast ▸ hnew

mutual

theorem Loads.yields {stack : List String} {path : String} {store after : Store}
    {result : Except LoadError Module} (h : Loads fetch stack path store result after)
    (hanswers : ∀ asked path, fetch asked path = answers path) (hsound : store.Sound answers)
    (hstack : ∀ p ∈ stack, store.get? p = none) : Yields answers stack path result :=
  match h with
  | .known hknown => hsound.yields_of_known hknown hstack
  | .circular _ hmem => .circular hmem
  | .refused _ hout hfetch => .refused hout ((hanswers _ _).symm.trans hfetch)
  | .blocked hnew hout hfetch himports =>
      .blocked hout ((hanswers _ _).symm.trans hfetch)
        (himports.yields hanswers (hsound.step hanswers (.ask hnew)) (absent_ask hnew hstack))
  | .loaded hnew hout hfetch himports =>
      .loaded hout ((hanswers _ _).symm.trans hfetch)
        (himports.yields hanswers (hsound.step hanswers (.ask hnew)) (absent_ask hnew hstack))

theorem LoadsAll.yields {stack paths : List String} {store after : Store}
    {outcome : Except LoadError Unit} (h : LoadsAll fetch stack paths store outcome after)
    (hanswers : ∀ asked path, fetch asked path = answers path) (hsound : store.Sound answers)
    (hstack : ∀ p ∈ stack, store.get? p = none) : YieldsAll answers stack paths outcome :=
  match h with
  | .nil => .nil
  | .failed hfirst => .failed (hfirst.yields hanswers hsound hstack)
  | .cons hfirst hrest =>
      .cons (hfirst.yields hanswers hsound hstack)
        (hrest.yields hanswers (hsound.steps hanswers hfirst.traced.1.steps)
          fun p hp => hfirst.traced.1.absent p hp (hstack p hp))

end

/-- A path of the store is loaded as the module that is there. -/
theorem Yields.loads_of_known {stack : List String} {path : String}
    {result : Except LoadError Module} (h : Yields answers stack path result)
    (hsound : store.Sound answers) (hstack : ∀ p ∈ stack, store.get? p = none) {module : Module}
    (hknown : store.get? path = some module) :
    ∃ after, Loads fetch stack path store result after := by
  cases h.unique (hsound.yields_of_known hknown hstack)
  exact ⟨store, .known hknown⟩

mutual

theorem Yields.loads {stack : List String} {path : String} {result : Except LoadError Module}
    (h : Yields answers stack path result)
    (hanswers : ∀ asked path, fetch asked path = answers path) {store : Store}
    (hsound : store.Sound answers) (hstack : ∀ p ∈ stack, store.get? p = none) :
    ∃ after, Loads fetch stack path store result after :=
  match h with
  | .circular hmem => ⟨store, .circular (hstack _ hmem) hmem⟩
  | .refused hout hanswer => by
      cases hknown : store.get? path with
      | some module => exact Yields.loads_of_known (.refused hout hanswer) hsound hstack hknown
      | none => exact ⟨_, .refused hknown hout ((hanswers _ _).trans hanswer)⟩
  | .blocked hout hanswer himports => by
      cases hknown : store.get? path with
      | some module =>
          exact Yields.loads_of_known (.blocked hout hanswer himports) hsound hstack hknown
      | none =>
          obtain ⟨after, hall⟩ := himports.loads hanswers
            (hsound.step hanswers (.ask hknown)) (absent_ask hknown hstack)
          exact ⟨after, .blocked hknown hout ((hanswers _ _).trans hanswer) hall⟩
  | .loaded hout hanswer himports => by
      cases hknown : store.get? path with
      | some module =>
          exact Yields.loads_of_known (.loaded hout hanswer himports) hsound hstack hknown
      | none =>
          obtain ⟨after, hall⟩ := himports.loads hanswers
            (hsound.step hanswers (.ask hknown)) (absent_ask hknown hstack)
          exact ⟨_, .loaded hknown hout ((hanswers _ _).trans hanswer) hall⟩

theorem YieldsAll.loads {stack paths : List String} {outcome : Except LoadError Unit}
    (h : YieldsAll answers stack paths outcome)
    (hanswers : ∀ asked path, fetch asked path = answers path) {store : Store}
    (hsound : store.Sound answers) (hstack : ∀ p ∈ stack, store.get? p = none) :
    ∃ after, LoadsAll fetch stack paths store outcome after :=
  match h with
  | .nil => ⟨store, .nil⟩
  | .failed hfirst => by
      obtain ⟨after, hload⟩ := hfirst.loads hanswers hsound hstack
      exact ⟨after, .failed hload⟩
  | .cons hfirst hrest => by
      obtain ⟨between, hload⟩ := hfirst.loads hanswers hsound hstack
      have htraced := hload.traced.1
      obtain ⟨after, hall⟩ := hrest.loads hanswers (hsound.steps hanswers htraced.steps)
        fun p hp => htraced.absent p hp (hstack p hp)
      exact ⟨after, .cons hload hall⟩

end

/-- The store and the paths on the stack have no influence on what a load gives, as long as they have
nothing in common. -/
theorem loads_iff_yields (hanswers : ∀ asked path, fetch asked path = answers path)
    (hsound : store.Sound answers) {stack : List String}
    (hstack : ∀ p ∈ stack, store.get? p = none) {path : String}
    {result : Except LoadError Module} :
    (∃ after, Loads fetch stack path store result after) ↔ Yields answers stack path result := by
  constructor
  · rintro ⟨after, hload⟩
    exact hload.yields hanswers hsound hstack
  · intro hyields
    exact hyields.loads hanswers hsound hstack

theorem Follows.sound (h : Follows fetch {} store)
    (hanswers : ∀ asked path, fetch asked path = answers path) : store.Sound answers :=
  (sound_of_modules_eq_nil rfl).steps hanswers h.steps

/-- From a steady source, a load gives the same module or the same error whatever earlier requests
have put into the store, as long as nothing that is being loaded is in it. -/
theorem load_regardless_of_store (hsteady : Steady fetch) (hfollows : Follows fetch {} store)
    {stack : List String} (hstack : ∀ p ∈ stack, store.get? p = none) (path : String)
    {empty : Store} (hempty : empty.modules = []) :
    (∀ result, (∃ after, Loads fetch stack path store result after) ↔
      ∃ after, Loads fetch stack path empty result after) ∧
    ∀ source : Source, source.fetch = fetch →
      (loadPath source stack path store).1 = (loadPath source stack path empty).1 := by
  have hanswers : ∀ asked path, fetch asked path = fetch [] path :=
    fun asked path => hsteady asked [] path
  have hnone : ∀ p ∈ stack, empty.get? p = none := fun p _ => by simp [get?, hempty]
  have hsame : ∀ result, (∃ after, Loads fetch stack path store result after) ↔
      ∃ after, Loads fetch stack path empty result after := by
    intro result
    rw [loads_iff_yields hanswers (hfollows.sound hanswers) hstack,
      loads_iff_yields hanswers (sound_of_modules_eq_nil hempty) hnone]
  refine ⟨hsame, ?_⟩
  rintro source rfl
  obtain ⟨after, hload⟩ := (hsame _).1 ⟨_, loads_iff.2 rfl⟩
  rw [hload.loadPath_eq]

/-- The module `b` has been loaded before; then `a` is loaded, which imports it and, after it, the
module `main` that is being loaded. -/
theorem load_regardless_of_store_circular :
    let source := Source.ofLists [("a", importing ["./b", "main"]), ("b", importing [])] []
    let store : Store := {
      modules := [⟨"b", importing []⟩]
      graph := { nodes := [⟨"b", [], []⟩] }
      asked := ["b"] }
    load source "b" {} = (.ok ⟨"b", importing []⟩, store) ∧
      (loadPath source ["main"] "a" store).1 = .error (.circular ["main", "a", "main"]) ∧
      (loadPath source ["main"] "a" {}).1 = .error (.circular ["main", "a", "main"]) := by
  intro source store
  have hfirst : load source "b" {} = (.ok ⟨"b", importing []⟩, store) := by cbv
  have hload : loadPath source ["main"] "a" store =
      (.error (.circular ["main", "a", "main"]), store.ask "a") := by cbv
  have hfollows := follows_of_load hfirst
  have hstack : ∀ p ∈ ["main"], store.get? p = none := by simp [store, get?]
  have hempty : ({} : Store).modules = [] := rfl
  have hsame := (load_regardless_of_store (fun _ _ _ => rfl) hfollows hstack "a" hempty).2 source rfl
  refine ⟨hfirst, ?_, ?_⟩
  · rw [hload]
  · rw [← hsame, hload]

end Custody.Store
