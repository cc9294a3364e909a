import Custody.Proofs.Library.Moments
import Mathlib.Data.Set.Card

/-! Every load comes to an end if the source answers finitely many paths with a program. A load within
another has one more path on its stack, which is fetchable and was not there before, so loads are
nested no deeper than there are such paths. Cycles among the imports, paths that cannot be fetched and
modules that have failed before make no difference to this. -/

namespace Custody

/-- There is a time at which the source answers the path with a program. -/
def Fetch.Fetchable (fetch : Fetch) (path : String) : Prop :=
  ∃ asked program, fetch asked path = .ok program

namespace Store

variable {fetch : Fetch}

/-! ### The stack of a load within another -/

theorem Nests.stack_eq {outer inner : Load} (h : Nests fetch outer inner) :
    inner.stack = outer.stack ++ [outer.path] ∧ outer.path ∉ outer.stack ∧
      fetch.Fetchable outer.path := by
  cases h with
  | intro _ hstack hfetch _ _ => exact ⟨rfl, hstack, _, _, hfetch⟩

/-- However deep a load is within another, what it has more on its stack are distinct fetchable paths
that the other does not have there. -/
theorem nested_stack {outer inner : Load} (h : Relation.TransGen (Nests fetch) outer inner) :
    ∃ added, inner.stack = outer.stack ++ added ∧ added ≠ [] ∧ added.Nodup ∧
      ∀ path ∈ added, path ∉ outer.stack ∧ fetch.Fetchable path := by
  induction h with
  | single h =>
      obtain ⟨hstack, hnew, hfetchable⟩ := h.stack_eq
      refine ⟨[outer.path], hstack, by simp, List.nodup_singleton _, ?_⟩
      simpa using ⟨hnew, hfetchable⟩
  | @tail between _ _ hlast ih =>
      obtain ⟨added, hbetween, -, hdistinct, hadded⟩ := ih
      obtain ⟨hstack, hnew, hfetchable⟩ := hlast.stack_eq
      rw [hbetween, List.mem_append, not_or] at hnew
      refine ⟨added ++ [between.path], ?_, by simp, ?_, ?_⟩
      · rw [hstack, hbetween, List.append_assoc]
      · exact List.concat_eq_append ▸ hdistinct.concat hnew.2
      · intro path hpath
        rcases List.mem_append.1 hpath with hpath | hpath
        · exact hadded path hpath
        · rw [List.mem_singleton.1 hpath]
          exact ⟨hnew.1, hfetchable⟩

/-- Distinct fetchable paths are no more than there are. -/
theorem length_le_ncard (hfinite : {path | fetch.Fetchable path}.Finite) {paths : List String}
    (hdistinct : paths.Nodup) (hpaths : ∀ path ∈ paths, fetch.Fetchable path) :
    paths.length ≤ {path | fetch.Fetchable path}.ncard := by
  rw [← List.toFinset_card_of_nodup hdistinct, ← Set.ncard_coe_finset]
  apply Set.ncard_le_ncard _ hfinite
  intro path hpath
  exact hpaths path (by simpa using hpath)

/-! ### Moments without end -/

/-- A moment has at most one next. -/
theorem Advances.unique {moment later other : Moment} (h : Advances fetch moment later)
    (h' : Advances fetch moment other) : later = other := by
  cases h <;> cases h' <;> grind

/-- From a moment that leads to an answer there is no endless sequence of moments. -/
theorem acc_of_runs {moment : Moment} {result : Except LoadError Module} {after : Store}
    (h : Runs fetch moment (.answered result after)) :
    Acc (fun later moment => Advances fetch moment later) moment := by
  induction h using Relation.ReflTransGen.head_induction_on with
  | refl =>
      constructor
      intro later h
      cases h
  | head hfirst _ ih =>
      constructor
      intro later h
      exact hfirst.unique h ▸ ih

/-- If every load ends, then the modules that are pending go on to an answer one after the other. -/
theorem exists_runs_resume
    (hends : ∀ stack path store, ∃ result after, Loads fetch stack path store result after)
    (module : Module) (pending : List Pending) (store : Store) :
    ∃ result after, Runs fetch (.resume module pending store) (.answered result after) := by
  induction pending generalizing module store with
  | nil => exact ⟨_, _, .refl⟩
  | cons waiting pending ih =>
      have hall : ∃ outcome between, LoadsAll fetch (store.stack pending ++ [waiting.path])
          waiting.left store outcome between :=
        exists_loadsAll fun _ path _ between _ _ => hends _ path between
      obtain ⟨outcome, between, hleft⟩ := hall
      have hruns : Runs fetch (.working waiting pending store)
          (.loadedAll waiting pending outcome between) := hleft.runs rfl
      cases outcome with
      | error cause => exact ⟨_, _, hruns⟩
      | ok _ =>
          obtain ⟨result, after, hrest⟩ := ih ⟨waiting.path, waiting.program⟩
            (between.keep ⟨waiting.path, waiting.program⟩)
          exact ⟨result, after, Relation.ReflTransGen.trans hruns (.head .kept hrest)⟩

theorem exists_answer
    (hends : ∀ stack path store, ∃ result after, Loads fetch stack path store result after)
    (moment : Moment) : ∃ result after, Runs fetch moment (.answered result after) := by
  cases moment with
  | entering path pending store =>
      obtain ⟨found, between, hload⟩ := hends (store.stack pending) path store
      have hruns := hload.runs rfl
      cases found with
      | error cause => exact ⟨_, _, hruns⟩
      | ok module =>
          obtain ⟨result, after, hrest⟩ := exists_runs_resume hends module pending between
          exact ⟨result, after, Relation.ReflTransGen.trans hruns hrest⟩
  | working module pending store =>
      exact exists_runs_resume hends ⟨module.path, module.program⟩ (module :: pending) store
  | answered result store => exact ⟨result, store, .refl⟩

/-! ### Finitely many fetchable paths -/

theorem nests_wellFounded_of_finite (hfinite : {path | fetch.Fetchable path}.Finite) :
    WellFounded fun inner outer => Nests fetch outer inner := by
  have hlisted : ∀ {asked : List String} {path : String} {program : Program},
      fetch asked path = .ok program → path ∈ hfinite.toFinset.toList := by
    intro asked path program hfetch
    rw [Finset.mem_toList, Set.Finite.mem_toFinset]
    exact ⟨asked, program, hfetch⟩
  exact nests_wellFounded hlisted

/-- Let the source answer finitely many paths with a program. Then every load comes to an answer,
whatever the store and the path, and it is the answer that the loader gives. No sequence of moments
goes on for ever, and neither does the descent into imports: the stack of a load within another is
larger, by paths that are distinct, fetchable and new on it, and so by no more than there are. -/
theorem every_load_ends (hfinite : {path | fetch.Fetchable path}.Finite) :
    (∀ path store, ∃ result after,
      Runs fetch (.entering path [] store) (.answered result after) ∧
      ∀ source : Source, source.fetch = fetch →
        loadPath source store.loading path store = (result, after)) ∧
    WellFounded (fun later moment => Advances fetch moment later) ∧
    WellFounded (fun inner outer => Nests fetch outer inner) ∧
    ∀ outer inner, Relation.TransGen (Nests fetch) outer inner →
      ∃ added, inner.stack = outer.stack ++ added ∧ added ≠ [] ∧ added.Nodup ∧
        (∀ path ∈ added, path ∉ outer.stack ∧ fetch.Fetchable path) ∧
        added.length ≤ {path | fetch.Fetchable path}.ncard := by
  have hnests := nests_wellFounded_of_finite hfinite
  have hends : ∀ stack path store, ∃ result after, Loads fetch stack path store result after :=
    fun stack path store => exists_loads_of_acc (hnests.apply ⟨stack, path, store⟩)
  refine ⟨?_, ?_, hnests, ?_⟩
  · intro path store
    obtain ⟨result, after, hload⟩ := hends store.loading path store
    refine ⟨result, after, loads_iff_runs.1 hload, ?_⟩
    rintro source rfl
    exact hload.loadPath_eq
  · constructor
    intro moment
    obtain ⟨result, after, hruns⟩ := exists_answer hends moment
    exact acc_of_runs hruns
  · intro outer inner h
    obtain ⟨added, hstack, hne, hdistinct, hadded⟩ := nested_stack h
    exact ⟨added, hstack, hne, hdistinct, hadded,
      length_le_ncard hfinite hdistinct fun path hpath => (hadded path hpath).2⟩

/-- The paths that a source answers are among those that it lists. -/
theorem finite_fetchable (source : Source) : {path | Fetch.Fetchable source.fetch path}.Finite := by
  apply (List.finite_toSet source.paths).subset
  rintro path ⟨asked, program, hfetch⟩
  exact source.mem_paths hfetch

/-- Three modules that import one another in a circle, and a module that imports one that is missing.
The latter is loaded twice, since it is not remembered that it failed. -/
theorem every_load_ends_circle :
    let source := Source.ofLists [("a", importing ["b"]), ("b", importing ["c", "gone"]),
      ("c", importing ["a"]), ("d", importing ["e", "gone"]), ("e", importing [])] []
    let store : Store := {
      modules := [⟨"e", importing []⟩]
      graph := { nodes := [⟨"e", [], []⟩] }
      asked := ["a", "b", "c", "d", "e", "gone"] }
    {path | Fetch.Fetchable source.fetch path}.Finite ∧
    Runs source.fetch (.entering "a" [] {})
      (.answered (.error (.circular ["a", "b", "c", "a"])) { asked := ["a", "b", "c"] }) ∧
    Runs source.fetch (.entering "d" [] { asked := ["a", "b", "c"] })
      (.answered (.error (.notFound "gone")) store) ∧
    Runs source.fetch (.entering "d" [] store)
      (.answered (.error (.notFound "gone")) ((store.ask "d").ask "gone")) ∧
    ["a", "b"].Nodup ∧ 2 ≤ {path | Fetch.Fetchable source.fetch path}.ncard := by
  intro source store
  have hfinite := finite_fetchable source
  obtain ⟨hends, -, -, hnested⟩ := every_load_ends hfinite
  have hcircle : loadPath source [] "a" {} =
      (.error (.circular ["a", "b", "c", "a"]), { asked := ["a", "b", "c"] }) := by cbv
  have hmissing : loadPath source [] "d" { asked := ["a", "b", "c"] } =
      (.error (.notFound "gone"), store) := by cbv
  have hagain : loadPath source [] "d" store =
      (.error (.notFound "gone"), (store.ask "d").ask "gone") := by cbv
  refine ⟨hfinite, ?_, ?_, ?_, ?_⟩
  · obtain ⟨result, after, hruns, hload⟩ := hends "a" {}
    cases (hload source rfl).symm.trans hcircle
    exact hruns
  · obtain ⟨result, after, hruns, hload⟩ := hends "d" { asked := ["a", "b", "c"] }
    cases (hload source rfl).symm.trans hmissing
    exact hruns
  · obtain ⟨result, after, hruns, hload⟩ := hends "d" store
    cases (hload source rfl).symm.trans hagain
    exact hruns
  · have hb : (importing ["b"]).dependencies "a" = [] ++ "b" :: [] := by cbv
    have hc : (importing ["c", "gone"]).dependencies "b" = [] ++ "c" :: ["gone"] := by cbv
    have hinner : Relation.TransGen (Nests source.fetch) ⟨[], "a", {}⟩
        ⟨["a", "b"], "c", (({} : Store).ask "a").ask "b"⟩ :=
      .tail (.single (.intro rfl (by simp) rfl hb .nil)) (.intro rfl (by simp) rfl hc .nil)
    obtain ⟨added, hstack, -, hdistinct, -, hlength⟩ := hnested _ _ hinner
    have hadded : added = ["a", "b"] := hstack.symm
    rw [hadded] at hdistinct hlength
    exact ⟨hdistinct, hlength⟩

end Store

end Custody
