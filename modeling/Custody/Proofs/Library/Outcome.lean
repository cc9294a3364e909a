import Custody.Proofs.Library.Transparent

/-! What the imports of a path say about loading it. It can be loaded if all that it leads to can be
fetched, without a cycle and without a path that is being loaded; and a cycle that a load reports is
one. -/

namespace Custody.Store

variable {answers : String → Except LoadError Program} {fetch : Fetch} {store : Store}

/-- The program at `path` has an import that resolves to `dependency`. -/
def Imports (answers : String → Except LoadError Program) (path dependency : String) : Prop :=
  ∃ program, answers path = .ok program ∧ dependency ∈ program.dependencies path

/-- Following imports one gets from the first path to the second, which may be the same. -/
def Reaches (answers : String → Except LoadError Program) : String → String → Prop :=
  Relation.ReflTransGen (Imports answers)

/-- All that is reached from a path can be fetched, is on no cycle and is not on the stack. -/
structure Loadable (answers : String → Except LoadError Program) (stack : List String)
    (path : String) : Prop where
  fetchable : ∀ p, Reaches answers path p → ∃ program, answers p = .ok program
  acyclic : ∀ p, Reaches answers path p → ¬Relation.TransGen (Imports answers) p p
  clear : ∀ p, Reaches answers path p → p ∉ stack

/-! ### Success -/

/-- A path leads to what its imports lead to. -/
theorem reaches_cases {path p : String} {program : Program} (hanswer : answers path = .ok program)
    (h : Reaches answers path p) :
    p = path ∨ ∃ dependency ∈ program.dependencies path, Reaches answers dependency p := by
  rcases Relation.ReflTransGen.cases_head h with rfl | ⟨dependency, himport, hreaches⟩
  · exact .inl rfl
  · obtain ⟨program', hanswer', hdep⟩ := himport
    cases hanswer.symm.trans hanswer'
    exact .inr ⟨dependency, hdep, hreaches⟩

theorem loadable_of_imports {stack : List String} {path : String} {program : Program}
    (hstack : path ∉ stack) (hanswer : answers path = .ok program)
    (himports : ∀ dependency ∈ program.dependencies path,
      Loadable answers (stack ++ [path]) dependency) : Loadable answers stack path := by
  refine ⟨?_, ?_, ?_⟩
  · intro p hp
    rcases reaches_cases hanswer hp with rfl | ⟨dependency, hdep, hreaches⟩
    · exact ⟨program, hanswer⟩
    · exact (himports dependency hdep).fetchable p hreaches
  · intro p hp hloop
    rcases reaches_cases hanswer hp with rfl | ⟨dependency, hdep, hreaches⟩
    · -- a cycle through the path comes back to it from one of its imports
      obtain ⟨next, ⟨program', hanswer', hnext⟩, hback⟩ := Relation.TransGen.head'_iff.1 hloop
      cases hanswer.symm.trans hanswer'
      exact (himports next hnext).clear p hback (by simp)
    · exact (himports dependency hdep).acyclic p hreaches hloop
  · intro p hp
    rcases reaches_cases hanswer hp with rfl | ⟨dependency, hdep, hreaches⟩
    · exact hstack
    · exact fun hin => (himports dependency hdep).clear p hreaches (List.mem_append_left _ hin)

theorem Loadable.imports {stack : List String} {path dependency : String}
    (h : Loadable answers stack path) (himport : Imports answers path dependency) :
    Loadable answers (stack ++ [path]) dependency := by
  have hhead : ∀ p, Reaches answers dependency p → Reaches answers path p :=
    fun p hp => Relation.ReflTransGen.head himport hp
  refine ⟨fun p hp => h.fetchable p (hhead p hp), fun p hp => h.acyclic p (hhead p hp), ?_⟩
  intro p hp hin
  rcases List.mem_append.1 hin with hold | hlast
  · exact h.clear p (hhead p hp) hold
  · cases List.mem_singleton.1 hlast
    exact h.acyclic path .refl (Relation.TransGen.head' himport hp)

mutual

theorem Yields.loadable {stack : List String} {path : String} {result : Except LoadError Module}
    (h : Yields answers stack path result) {module : Module} (hok : result = .ok module) :
    Loadable answers stack path :=
  match h with
  | .circular _ => by cases hok
  | .refused _ _ => by cases hok
  | .blocked _ _ _ => by cases hok
  | .loaded hstack hanswer himports =>
      loadable_of_imports hstack hanswer (himports.loadable rfl)

theorem YieldsAll.loadable {stack paths : List String} {outcome : Except LoadError Unit}
    (h : YieldsAll answers stack paths outcome) (hok : outcome = .ok ()) :
    ∀ path ∈ paths, Loadable answers stack path :=
  match h with
  | .nil => by simp
  | .failed _ => by cases hok
  | .cons hfirst hrest => List.forall_mem_cons.2 ⟨hfirst.loadable rfl, hrest.loadable hok⟩

end

/-- With finitely many paths to go to, following the imports ends well. -/
theorem Loadable.yields {source : Source} {stack : List String} {path : String}
    (h : Loadable (source.fetch []) stack path) :
    ∃ module, Yields (source.fetch []) stack path (.ok module) := by
  induction hroom : roomLeft source.paths stack using Nat.strong_induction_on
    generalizing stack path with
  | _ room ih =>
      obtain ⟨program, hanswer⟩ := h.fetchable path .refl
      have hstack := h.clear path .refl
      refine ⟨⟨path, program⟩, .loaded hstack hanswer (yieldsAll_ok ?_)⟩
      intro dependency hdep
      have hless := roomLeft_append_lt (source.mem_paths hanswer) hstack
      exact ih _ (hroom ▸ hless) (h.imports ⟨program, hanswer, hdep⟩) rfl

/-! ### Reported cycles -/

/-- A list of paths with the same path at both ends, each of which imports the next. -/
structure IsImportCycle (answers : String → Except LoadError Program) (cycle : List String) :
    Prop where
  length : 2 ≤ cycle.length
  closed : cycle.head? = cycle.getLast?
  linked : cycle.IsChain (Imports answers)

/-- The source has answered with this error when it was asked the last time. A load ends with the first
such answer, so this tells an error of the source from one that the loader itself has raised. -/
def Refused (answers : String → Except LoadError Program) (store : Store) (cause : LoadError) :
    Prop :=
  ∃ path, store.asked.getLast? = some path ∧ answers path = .error cause

/-- The stack is a chain of imports that goes on to each of the paths. -/
structure Leads (answers : String → Except LoadError Program) (stack paths : List String) :
    Prop where
  linked : stack.IsChain (Imports answers)
  next : ∀ top ∈ stack.getLast?, ∀ path ∈ paths, Imports answers top path

theorem leads_nil (paths : List String) : Leads answers [] paths :=
  ⟨List.isChain_nil, by simp⟩

theorem Leads.first {stack paths : List String} {path : String}
    (h : Leads answers stack (path :: paths)) : Leads answers stack [path] :=
  ⟨h.linked, fun top hlast p hp =>
    h.next top hlast p (List.mem_singleton.1 hp ▸ List.mem_cons_self)⟩

theorem Leads.rest {stack paths : List String} {path : String}
    (h : Leads answers stack (path :: paths)) : Leads answers stack paths :=
  ⟨h.linked, fun top hlast p hp => h.next top hlast p (List.mem_cons_of_mem _ hp)⟩

theorem Leads.enter {stack : List String} {path : String} {program : Program}
    (h : Leads answers stack [path]) (hanswer : answers path = .ok program) :
    Leads answers (stack ++ [path]) (program.dependencies path) := by
  refine ⟨h.linked.append (List.isChain_singleton _) ?_, ?_⟩
  · intro top hlast next hnext
    cases hnext
    exact h.next top hlast _ (List.mem_singleton_self _)
  · intro top hlast dependency hdep
    rw [List.getLast?_concat, Option.mem_some_iff] at hlast
    exact hlast ▸ ⟨program, hanswer, hdep⟩

theorem Leads.isImportCycle {stack : List String} {path : String}
    (h : Leads answers stack [path]) (hmem : path ∈ stack) :
    IsImportCycle answers (cycleThrough stack path) :=
  ⟨two_le_length_cycleThrough hmem, head?_cycleThrough hmem,
    isChain_cycleThrough h.linked hmem fun top hlast =>
      h.next top hlast path (List.mem_singleton_self _)⟩

mutual

/-- A load fails with what the source has answered, or else with a cycle that the imports form. -/
theorem Loads.refused_or_circular {stack : List String} {path : String} {store after : Store}
    {result : Except LoadError Module} (h : Loads fetch stack path store result after)
    (hanswers : ∀ asked path, fetch asked path = answers path) (hleads : Leads answers stack [path])
    {cause : LoadError} (hfails : result = .error cause) :
    Refused answers after cause ∨ ∃ cycle, cause = .circular cycle ∧ IsImportCycle answers cycle :=
  match h with
  | .known _ => by cases hfails
  | .circular _ hmem => by
      cases hfails
      exact .inr ⟨_, rfl, hleads.isImportCycle hmem⟩
  | .refused _ _ hfetch => by
      cases hfails
      exact .inl ⟨path, by simp [ask], (hanswers _ _).symm.trans hfetch⟩
  | .blocked _ _ hfetch himports =>
      himports.refused_or_circular hanswers (hleads.enter ((hanswers _ _).symm.trans hfetch))
        (congrArg _ (Except.error.inj hfails))
  | .loaded _ _ _ _ => by cases hfails

theorem LoadsAll.refused_or_circular {stack paths : List String} {store after : Store}
    {outcome : Except LoadError Unit} (h : LoadsAll fetch stack paths store outcome after)
    (hanswers : ∀ asked path, fetch asked path = answers path) (hleads : Leads answers stack paths)
    {cause : LoadError} (hfails : outcome = .error cause) :
    Refused answers after cause ∨ ∃ cycle, cause = .circular cycle ∧ IsImportCycle answers cycle :=
  match h with
  | .nil => by cases hfails
  | .failed hfirst =>
      hfirst.refused_or_circular hanswers hleads.first (congrArg _ (Except.error.inj hfails))
  | .cons _ hrest => hrest.refused_or_circular hanswers hleads.rest hfails

end

/-! ### The outcome of a load -/

/-- A load succeeds exactly if all that the path leads to can be fetched, is on no cycle and is not
being loaded. If nothing is being loaded and a cycle is reported that the source has not answered
with, then the imports form this cycle. -/
theorem load_outcome {source : Source} (hsteady : Steady source.fetch)
    (hfollows : Follows source.fetch {} store) {stack : List String}
    (hstack : ∀ p ∈ stack, store.get? p = none) (path : String) :
    ((∃ module, (loadPath source stack path store).1 = .ok module) ↔
      Loadable (source.fetch []) stack path) ∧
    (stack = [] → ∀ cycle after,
      loadPath source stack path store = (.error (.circular cycle), after) →
        ¬Refused (source.fetch []) after (.circular cycle) →
          IsImportCycle (source.fetch []) cycle) := by
  have hanswers : ∀ asked path, source.fetch asked path = source.fetch [] path :=
    fun asked path => hsteady asked [] path
  have hyields : ∀ result, (∃ after, Loads source.fetch stack path store result after) ↔
      Yields (source.fetch []) stack path result :=
    fun result => loads_iff_yields hanswers (hfollows.sound hanswers) hstack
  refine ⟨⟨?_, ?_⟩, ?_⟩
  · rintro ⟨module, hok⟩
    exact ((hyields _).1 ⟨_, loads_iff.2 rfl⟩).loadable hok
  · intro hloadable
    obtain ⟨module, hyield⟩ := hloadable.yields
    obtain ⟨after, hload⟩ := (hyields _).2 hyield
    exact ⟨module, by rw [hload.loadPath_eq]⟩
  · rintro rfl cycle after hload hnot
    have hcases := (loads_iff.2 hload).refused_or_circular hanswers (leads_nil _) rfl
    obtain ⟨cycle, ⟨⟩, hcycle⟩ := hcases.resolve_left hnot
    exact hcycle

/-- After `d` has been loaded, `c` that imports it can be loaded, and `a` and `b` that import each other
cannot. -/
theorem load_outcome_mutual :
    let source := Source.ofLists [("a", importing ["./b"]), ("b", importing ["a"]),
      ("c", importing ["d", "./d"]), ("d", importing [])] []
    let store : Store := {
      modules := [⟨"d", importing []⟩]
      graph := { nodes := [⟨"d", [], []⟩] }
      asked := ["d"] }
    load source "d" {} = (.ok ⟨"d", importing []⟩, store) ∧
      Loadable (source.fetch []) ["main"] "c" ∧ ¬Loadable (source.fetch []) [] "a" ∧
      IsImportCycle (source.fetch []) ["a", "b", "a"] := by
  intro source store
  have hfirst : load source "d" {} = (.ok ⟨"d", importing []⟩, store) := by cbv
  have hloads : loadPath source ["main"] "c" store = (.ok ⟨"c", importing ["d", "./d"]⟩,
      (store.ask "c").keep ⟨"c", importing ["d", "./d"]⟩) := by cbv
  have hfails : loadPath source [] "a" store =
      (.error (.circular ["a", "b", "a"]), (store.ask "a").ask "b") := by cbv
  have hanswered : source.fetch [] "b" = .ok (importing ["a"]) := rfl
  have hfollows := follows_of_load hfirst
  have hsteady : Steady source.fetch := fun _ _ _ => rfl
  have hmain : ∀ p ∈ ["main"], store.get? p = none := by simp [store, get?]
  have hnone : ∀ p ∈ ([] : List String), store.get? p = none := by simp
  have hc := load_outcome hsteady hfollows hmain "c"
  have ha := load_outcome hsteady hfollows hnone "a"
  refine ⟨hfirst, hc.1.1 ⟨_, congrArg Prod.fst hloads⟩, ?_, ha.2 rfl _ _ hfails ?_⟩
  · intro hloadable
    obtain ⟨module, hok⟩ := ha.1.2 hloadable
    cases hok.symm.trans (congrArg Prod.fst hfails)
  · rintro ⟨path, hlast, hanswer⟩
    cases hlast
    cases hanswered.symm.trans hanswer

end Custody.Store
