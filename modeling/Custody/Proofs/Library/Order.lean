import Custody.Library.Graph.Order
import Custody.Proofs.Library.Cycle
import Custody.Proofs.Library.Graph

/-! The load order. While modules are taken from the queue, the counter of every module is the number
of its imports that are not done yet, repeated imports counted each time. A module is queued when its
counter gets to zero, so it comes after all it imports, and a counter is only lowered while it is
above zero. In a graph without cycles the queue runs dry only after the last module. -/

namespace Custody.ImportGraph

/-- Each module of the list comes after those of its imports that the graph records. -/
def ImportsFirst (graph : ImportGraph) (order : List String) : Prop :=
  ∀ front path back, order = front ++ path :: back →
    ∀ dependency, graph.Imports path dependency → dependency ∈ graph.paths → dependency ∈ front

/-- How many of the imports are recorded in the graph and not done yet. -/
def unmet (graph : ImportGraph) (done dependencies : List String) : Nat :=
  dependencies.countP fun dependency => decide (dependency ∈ graph.paths ∧ dependency ∉ done)

variable {graph : ImportGraph}

theorem importsFirst_nil : graph.ImportsFirst [] := by
  intro front path back h
  simp at h

theorem ImportsFirst.concat {done : List String} {path : String} (h : graph.ImportsFirst done)
    (hpath : ∀ dependency, graph.Imports path dependency → dependency ∈ graph.paths →
      dependency ∈ done) : graph.ImportsFirst (done ++ [path]) :=
  forall_split_concat h hpath

theorem unmet_eq_zero_iff {done dependencies : List String} :
    graph.unmet done dependencies = 0 ↔
      ∀ dependency ∈ dependencies, dependency ∈ graph.paths → dependency ∈ done := by
  simp [unmet]

/-- Each time a path is imported, it is one import less that is not met. -/
theorem unmet_concat {done : List String} {path : String} (hpath : path ∈ graph.paths)
    (hnew : path ∉ done) (dependencies : List String) :
    graph.unmet done dependencies =
      graph.unmet (done ++ [path]) dependencies + dependencies.count path := by
  induction dependencies with
  | nil => rfl
  | cons dependency rest ih =>
      simp only [unmet] at ih
      simp only [unmet, List.countP_cons, List.count_cons, ih]
      by_cases heq : dependency = path
      · subst heq
        simp [hpath, hnew]
        omega
      · simp [heq]
        omega

/-- The releases of a module once `path` is done: one for each time it imports it. -/
def releases (path : String) (node : ImportNode) : List String :=
  (node.dependencies.filter (· == path)).map fun _ => node.path

theorem releases_eq_replicate (path : String) (node : ImportNode) :
    releases path node = List.replicate (node.dependencies.count path) node.path := by
  rw [releases, List.map_const', List.count_eq_length_filter]

theorem dependents_eq_flatMap (graph : ImportGraph) (path : String) :
    graph.dependents path = graph.nodes.flatMap (releases path) := rfl

theorem count_releases_self (path : String) (node : ImportNode) :
    (releases path node).count node.path = node.dependencies.count path := by
  rw [releases_eq_replicate, List.count_replicate_self]

theorem count_releases_of_notMem {nodes : List ImportNode} {other : String}
    (habsent : other ∉ nodes.map (·.path)) (path : String) :
    (nodes.flatMap (releases path)).count other = 0 := by
  refine List.count_eq_zero_of_not_mem fun hin => habsent ?_
  obtain ⟨n, hn, hreleases⟩ := List.mem_flatMap.1 hin
  obtain ⟨-, -, heq⟩ := List.mem_map.1 hreleases
  exact heq ▸ List.mem_map_of_mem hn

/-- A module waits for a path once for each time it imports it. -/
theorem count_dependents (hnodup : graph.paths.Nodup) {node : ImportNode}
    (hmem : node ∈ graph.nodes) (path : String) :
    (graph.dependents path).count node.path = node.dependencies.count path := by
  obtain ⟨before, after, hnodes⟩ := List.append_of_mem hmem
  rw [paths, hnodes, List.map_append, List.map_cons, List.nodup_middle, List.nodup_cons,
    List.mem_append, not_or] at hnodup
  rw [dependents_eq_flatMap, hnodes, List.flatMap_append, List.flatMap_cons, List.count_append,
    List.count_append, count_releases_of_notMem hnodup.1.1, count_releases_of_notMem hnodup.1.2,
    count_releases_self]
  omega

/-! ### Counters -/

namespace Sorting

theorem lookup_setWaiting_self {waiting : List (String × Nat)} {path : String} {old : Nat}
    (h : waiting.lookup path = some old) (count : Nat) :
    (setWaiting waiting path count).lookup path = some count := by
  induction waiting with
  | nil => cases h
  | cons entry rest ih =>
      by_cases heq : entry.1 = path
      · simp [setWaiting, heq]
      · have hne : (path == entry.1) = false := by simpa using Ne.symm heq
        have hrest : rest.lookup path = some old := by
          rw [← h, List.lookup_cons, hne]
        rw [setWaiting, List.map_cons, if_neg heq, List.lookup_cons, hne]
        exact ih hrest

theorem lookup_setWaiting_of_ne {path other : String} (hne : other ≠ path)
    (waiting : List (String × Nat)) (count : Nat) :
    (setWaiting waiting path count).lookup other = waiting.lookup other := by
  induction waiting with
  | nil => rfl
  | cons entry rest ih =>
      by_cases heq : entry.1 = path
      · have hfirst : (other == entry.1) = false := by simpa [heq] using hne
        have hpath : (other == path) = false := by simpa using hne
        rw [setWaiting, List.map_cons, if_pos heq, List.lookup_cons, List.lookup_cons, hfirst, hpath]
        exact ih
      · rw [setWaiting, List.map_cons, if_neg heq, List.lookup_cons, List.lookup_cons]
        cases other == entry.1
        · exact ih
        · rfl

theorem done_release (sorting : Sorting) (path : String) :
    (sorting.release path).done = sorting.done := by
  rw [release]
  split <;> rfl

section

variable {sorting : Sorting} {path : String} {count : Nat}

/-- Lowering a counter that is above zero. -/
theorem release_of_lookup (h : sorting.waiting.lookup path = some (count + 1)) :
    sorting.release path =
      { sorting with
        waiting := setWaiting sorting.waiting path count
        ready := if count = 0 then sorting.ready ++ [path] else sorting.ready } := by
  simp [release, h]

theorem lookup_release_self (h : sorting.waiting.lookup path = some (count + 1)) :
    (sorting.release path).waiting.lookup path = some count := by
  rw [release_of_lookup h]
  exact lookup_setWaiting_self h count

theorem lookup_release_of_ne (h : sorting.waiting.lookup path = some (count + 1)) {other : String}
    (hne : other ≠ path) :
    (sorting.release path).waiting.lookup other = sorting.waiting.lookup other := by
  rw [release_of_lookup h]
  exact lookup_setWaiting_of_ne hne sorting.waiting count

/-- A module is queued when its last import is done. -/
theorem free_release (h : sorting.waiting.lookup path = some (count + 1)) :
    (sorting.release path).done ++ (sorting.release path).ready =
      (sorting.done ++ sorting.ready) ++ if count = 0 then [path] else [] := by
  rw [release_of_lookup h]
  split <;> simp

end

/-- The state right after `path` was taken from the queue, before any module that waits for it is
released. -/
def taken (sorting : Sorting) (path : String) (ready : List String) : Sorting :=
  { sorting with ready, done := sorting.done ++ [path] }

theorem step_of_ready {sorting : Sorting} {path : String} {ready : List String}
    (h : sorting.ready = path :: ready) :
    sorting.step graph = (graph.dependents path).foldl release (sorting.taken path ready) := by
  simp [step, h, taken]

/-- What holds while the modules `owed` are still to be released for a module that is done. -/
structure Tracks (graph : ImportGraph) (owed : List String) (sorting : Sorting) : Prop where
  counted : ∀ node ∈ graph.nodes, sorting.waiting.lookup node.path =
    some (graph.unmet sorting.done node.dependencies + owed.count node.path)
  free_iff : ∀ path, path ∈ sorting.done ++ sorting.ready ↔
    path ∈ graph.paths ∧ sorting.waiting.lookup path = some 0
  distinct : (sorting.done ++ sorting.ready).Nodup
  importsFirst : graph.ImportsFirst sorting.done

/-- A module that is still owed a release has a counter above zero. -/
theorem Tracks.lookup_owed {sorting : Sorting} {next : String} {owed : List String}
    (h : Tracks graph (next :: owed) sorting) (hnext : next ∈ graph.paths) :
    ∃ node ∈ graph.nodes, node.path = next ∧ sorting.waiting.lookup next =
      some (graph.unmet sorting.done node.dependencies + owed.count next + 1) := by
  obtain ⟨node, hmem, hpath⟩ := List.mem_map.1 hnext
  refine ⟨node, hmem, hpath, ?_⟩
  rw [← hpath, h.counted node hmem, hpath, List.count_cons_self, Nat.add_assoc]

theorem Tracks.release (hnodup : graph.paths.Nodup) {sorting : Sorting} {next : String}
    {owed : List String} (h : Tracks graph (next :: owed) sorting) (hnext : next ∈ graph.paths) :
    Tracks graph owed (sorting.release next) := by
  obtain ⟨node, hmem, hpath, hlookup⟩ := h.lookup_owed hnext
  have hfresh : next ∉ sorting.done ++ sorting.ready := by
    intro hfree
    have hzero := ((h.free_iff next).1 hfree).2
    rw [hlookup] at hzero
    cases hzero
  refine ⟨?_, ?_, ?_, ?_⟩
  · intro n hn
    rw [done_release]
    by_cases heq : n.path = next
    · have hsame : n = node := List.inj_on_of_nodup_map hnodup hn hmem (heq.trans hpath.symm)
      subst hsame
      rw [heq, lookup_release_self hlookup]
    · rw [lookup_release_of_ne hlookup heq, h.counted n hn, List.count_cons_of_ne (Ne.symm heq)]
  · intro path
    rw [free_release hlookup, List.mem_append]
    by_cases heq : path = next
    · subst heq
      simp [hfresh, hnext, lookup_release_self hlookup]
    · rw [lookup_release_of_ne hlookup heq, ← h.free_iff path]
      split <;> simp [heq]
  · rw [free_release hlookup]
    split
    · exact List.concat_eq_append ▸ h.distinct.concat hfresh
    · simpa using h.distinct
  · rw [done_release]
    exact h.importsFirst

theorem Tracks.releaseAll (hnodup : graph.paths.Nodup) {owed : List String} :
    ∀ {before : List String} {sorting : Sorting}, Tracks graph (before ++ owed) sorting →
      (∀ next ∈ before, next ∈ graph.paths) → Tracks graph owed (before.foldl Sorting.release sorting)
  | [], _, h, _ => h
  | next :: _, _, h, hmem =>
      (h.release hnodup (hmem next List.mem_cons_self)).releaseAll hnodup
        fun p hp => hmem p (List.mem_cons_of_mem _ hp)

/-! ### One module after the other -/

theorem lookup_startSorting (hnodup : graph.paths.Nodup) {node : ImportNode}
    (hmem : node ∈ graph.nodes) :
    graph.startSorting.waiting.lookup node.path = some (graph.unmet [] node.dependencies) := by
  obtain ⟨before, after, hnodes⟩ := List.append_of_mem hmem
  have hfirst : ∀ n ∈ before, n.path ≠ node.path := by
    intro n hn heq
    rw [paths, hnodes, List.map_append] at hnodup
    exact (List.nodup_append.1 hnodup).2.2 _ (List.mem_map_of_mem hn) _ (by simp) heq
  refine List.lookup_eq_some_iff.2 ⟨before.map fun n => (n.path, graph.unmet [] n.dependencies),
    after.map fun n => (n.path, graph.unmet [] n.dependencies), ?_, ?_⟩
  · simp [startSorting, hnodes, unmet]
  · intro entry hentry
    obtain ⟨n, hn, rfl⟩ := List.mem_map.1 hentry
    simpa using Ne.symm (hfirst n hn)

theorem tracks_start (hnodup : graph.paths.Nodup) : Tracks graph [] graph.startSorting := by
  refine ⟨fun node hmem => lookup_startSorting hnodup hmem, ?_, ?_, importsFirst_nil⟩
  · intro path
    have hready : path ∈ graph.startSorting.ready ↔
        ∃ node ∈ graph.nodes, graph.unmet [] node.dependencies = 0 ∧ node.path = path := by
      simp [startSorting, unmet, and_assoc]
    show path ∈ graph.startSorting.ready ↔ _
    rw [hready]
    constructor
    · rintro ⟨node, hmem, hzero, rfl⟩
      exact ⟨List.mem_map_of_mem hmem, hzero ▸ lookup_startSorting hnodup hmem⟩
    · rintro ⟨hpath, hzero⟩
      obtain ⟨node, hmem, rfl⟩ := List.mem_map.1 hpath
      rw [lookup_startSorting hnodup hmem] at hzero
      exact ⟨node, hmem, Option.some.inj hzero, rfl⟩
  · have hwaiting : graph.startSorting.waiting.map (·.1) = graph.paths := by
      simp [startSorting, paths]
    have hsublist : graph.startSorting.ready.Sublist graph.paths :=
      hwaiting ▸ List.filter_sublist.map _
    exact hnodup.sublist hsublist

/-- Taking a module leaves those that wait for it to be released. -/
theorem Tracks.taken (hnodup : graph.paths.Nodup) {sorting : Sorting} {path : String}
    {ready : List String} (h : Tracks graph [] sorting) (hready : sorting.ready = path :: ready) :
    Tracks graph (graph.dependents path) (sorting.taken path ready) := by
  have hfree : path ∈ sorting.done ++ sorting.ready := by simp [hready]
  obtain ⟨hpath, hzero⟩ := (h.free_iff path).1 hfree
  have hnew : path ∉ sorting.done := by
    intro hdone
    have hdistinct := h.distinct
    rw [hready] at hdistinct
    exact (List.nodup_append.1 hdistinct).2.2 path hdone path List.mem_cons_self rfl
  have hlist : (sorting.done ++ [path]) ++ ready = sorting.done ++ sorting.ready := by
    simp [hready]
  refine ⟨?_, ?_, ?_, ?_⟩
  · intro node hmem
    have hcount := h.counted node hmem
    rw [unmet_concat hpath hnew, ← count_dependents hnodup hmem path] at hcount
    exact hcount
  · intro p
    show p ∈ (sorting.done ++ [path]) ++ ready ↔ _
    rw [hlist]
    exact h.free_iff p
  · show ((sorting.done ++ [path]) ++ ready).Nodup
    rw [hlist]
    exact h.distinct
  · refine h.importsFirst.concat ?_
    rintro dependency ⟨node, hnode, hdep⟩ hrecorded
    obtain ⟨hmem, hnpath⟩ := (get?_eq_some_iff hnodup).1 hnode
    have hcount := h.counted node hmem
    rw [hnpath, hzero] at hcount
    have hunmet : graph.unmet sorting.done node.dependencies = 0 := by simpa using hcount.symm
    exact unmet_eq_zero_iff.1 hunmet dependency hdep hrecorded

theorem mem_paths_of_mem_dependents {path next : String} (h : next ∈ graph.dependents path) :
    next ∈ graph.paths := by
  obtain ⟨node, hmem, hnext⟩ := List.mem_flatMap.1 h
  obtain ⟨_, _, rfl⟩ := List.mem_map.1 hnext
  exact List.mem_map_of_mem hmem

theorem Tracks.step (hnodup : graph.paths.Nodup) {sorting : Sorting}
    (h : Tracks graph [] sorting) : Tracks graph [] (sorting.step graph) := by
  cases hready : sorting.ready with
  | nil => simpa [Sorting.step, hready] using h
  | cons path ready =>
      rw [step_of_ready hready]
      have htaken := h.taken hnodup hready
      rw [← List.append_nil (graph.dependents path)] at htaken
      exact htaken.releaseAll hnodup fun next hnext => mem_paths_of_mem_dependents hnext

theorem Tracks.steps (hnodup : graph.paths.Nodup) (n : Nat) {sorting : Sorting}
    (h : Tracks graph [] sorting) : Tracks graph [] (sorting.steps graph n) := by
  induction n generalizing sorting with
  | zero => exact h
  | succ n ih => exact ih (h.step hnodup)

/-! ### How many steps there are -/

theorem done_foldl_release (owed : List String) (sorting : Sorting) :
    (owed.foldl Sorting.release sorting).done = sorting.done := by
  induction owed generalizing sorting with
  | nil => rfl
  | cons next owed ih =>
      rw [List.foldl_cons, ih, done_release]

theorem done_step {sorting : Sorting} {path : String} {ready : List String}
    (h : sorting.ready = path :: ready) : (sorting.step graph).done = sorting.done ++ [path] := by
  rw [step_of_ready h, done_foldl_release]
  rfl

theorem step_of_ready_eq_nil {sorting : Sorting} (h : sorting.ready = []) :
    sorting.step graph = sorting := by
  simp [Sorting.step, h]

theorem steps_of_ready_eq_nil {sorting : Sorting} (h : sorting.ready = []) (n : Nat) :
    sorting.steps graph n = sorting := by
  induction n with
  | zero => rfl
  | succ n ih => rw [Sorting.steps, step_of_ready_eq_nil h, ih]

/-- As long as the queue does not run dry, each step takes one module. -/
theorem ready_eq_nil_or_length_done (n : Nat) (sorting : Sorting) :
    (sorting.steps graph n).ready = [] ∨
      (sorting.steps graph n).done.length = sorting.done.length + n := by
  induction n generalizing sorting with
  | zero => exact .inr rfl
  | succ n ih =>
      cases hready : sorting.ready with
      | nil =>
          rw [steps_of_ready_eq_nil hready]
          exact .inl hready
      | cons path ready =>
          rcases ih (sorting.step graph) with hdry | hlength
          · exact .inl hdry
          · refine .inr ?_
            rw [Sorting.steps, hlength, done_step hready, List.length_append, List.length_singleton]
            omega

/-- There are no more modules to take than there are nodes, so the queue is empty at the end. -/
theorem ready_eq_nil (hnodup : graph.paths.Nodup) :
    (graph.startSorting.steps graph graph.nodes.length).ready = [] := by
  rcases ready_eq_nil_or_length_done graph.nodes.length graph.startSorting with hdry | hlength
  · exact hdry
  · have htracks := (tracks_start hnodup).steps hnodup graph.nodes.length
    have hsubset : (graph.startSorting.steps graph graph.nodes.length).done ++
        (graph.startSorting.steps graph graph.nodes.length).ready ⊆ graph.paths :=
      fun path hpath => ((htracks.free_iff path).1 hpath).1
    have hle := (List.subperm_of_subset htracks.distinct hsubset).length_le
    have hstart : graph.startSorting.done = [] := rfl
    rw [List.length_append, hlength, hstart, paths, List.length_map, List.length_nil] at hle
    exact List.eq_nil_of_length_eq_zero (by omega)

/-- A queue that runs dry leaves no module behind whose imports all end. -/
theorem Tracks.mem_done {sorting : Sorting} (h : Tracks graph [] sorting)
    (hnodup : graph.paths.Nodup) (hready : sorting.ready = []) {path : String}
    (hends : graph.Ends path) (hpath : path ∈ graph.paths) : path ∈ sorting.done := by
  induction hends with
  | intro path _ ih =>
      obtain ⟨node, hmem, rfl⟩ := List.mem_map.1 hpath
      have hnode : graph.get? node.path = some node := (get?_eq_some_iff hnodup).2 ⟨hmem, rfl⟩
      have hunmet : graph.unmet sorting.done node.dependencies = 0 := by
        refine unmet_eq_zero_iff.2 ?_
        intro dependency hdep hrecorded
        exact ih dependency ⟨node, hnode, hdep⟩ hrecorded
      have hfree := (h.free_iff node.path).2 ⟨hpath, by simp [h.counted node hmem, hunmet]⟩
      simpa [hready] using hfree

/-- A sort under way: some modules are done, the next one has been taken, and of the modules that
wait for it those up to `next` have been released. -/
inductive Releasing (graph : ImportGraph) : Sorting → (next : String) → Prop
  | intro {n : Nat} {path next : String} {ready before after : List String}
      (hready : (graph.startSorting.steps graph n).ready = path :: ready)
      (hsplit : graph.dependents path = before ++ next :: after) :
      Releasing graph
        (before.foldl Sorting.release ((graph.startSorting.steps graph n).taken path ready)) next

/-- No counter is lowered below zero. -/
theorem Releasing.lookup (hnodup : graph.paths.Nodup) {sorting : Sorting} {next : String}
    (h : Releasing graph sorting next) :
    ∃ count, sorting.waiting.lookup next = some (count + 1) := by
  obtain ⟨hready, hsplit⟩ := h
  rename_i path ready before after
  have hmem : ∀ p ∈ graph.dependents path, p ∈ graph.paths :=
    fun p => mem_paths_of_mem_dependents
  have htaken := ((tracks_start hnodup).steps hnodup _).taken hnodup hready
  rw [hsplit] at htaken hmem
  have htracks := htaken.releaseAll hnodup fun p hp => hmem p (List.mem_append_left _ hp)
  obtain ⟨node, -, -, hlookup⟩ := htracks.lookup_owed (hmem _ (by simp))
  exact ⟨_, hlookup⟩

end Sorting

/-! ### The whole order -/

/-- A graph without a cycle is put in order. -/
theorem exists_order (hnodup : graph.paths.Nodup) (h : graph.cycle? = none) :
    ∃ order, graph.order = .ok order ∧ order.Perm graph.paths ∧ graph.ImportsFirst order := by
  have htracks := (Sorting.tracks_start hnodup).steps hnodup graph.nodes.length
  have hready := Sorting.ready_eq_nil hnodup
  refine ⟨(graph.startSorting.steps graph graph.nodes.length).done, ?_, ?_, htracks.importsFirst⟩
  · simp [order, h]
  · have hdone := (List.nodup_append.1 htracks.distinct).1
    refine (List.perm_ext_iff_of_nodup hdone hnodup).2 fun path => ⟨?_, ?_⟩
    · intro hpath
      exact ((htracks.free_iff path).1 (List.mem_append_left _ hpath)).1
    · intro hpath
      exact htracks.mem_done hnodup hready (ends_of_cycle?_eq_none h hpath) hpath

/-- The order fails exactly with the cycle that is found. Otherwise it holds every module once, each
after the recorded modules that it imports, and on the way no counter is lowered that is zero. -/
theorem order_exact (hsorted : graph.Sorted) :
    (∀ cause, graph.order = .error cause ↔
      ∃ cycle, graph.cycle? = some cycle ∧ cause = .circular cycle) ∧
    (graph.cycle? = none → ∃ order, graph.order = .ok order ∧ order.Perm graph.paths ∧
      graph.ImportsFirst order) ∧
    ∀ sorting next, Sorting.Releasing graph sorting next →
      ∃ count, sorting.waiting.lookup next = some (count + 1) := by
  refine ⟨?_, exists_order hsorted.nodup_paths, ?_⟩
  · intro cause
    cases hcycle : graph.cycle? with
    | none => simp [order, hcycle]
    | some cycle => simp [order, hcycle, eq_comm]
  · intro sorting next hreleasing
    exact hreleasing.lookup hsorted.nodup_paths

/-- Modules that import one another twice and import from outside of the graph. -/
theorem order_exact_repeated :
    let graph := ((({} : ImportGraph).add "main" ["util", "gone", "util", "core"] ["run"]).add
      "util" ["core", "core"] []).add "core" [] []
    graph.Sorted ∧ graph.order = .ok ["core", "util", "main"] ∧
      ["core", "util", "main"].Perm graph.paths ∧ graph.ImportsFirst ["core", "util", "main"] := by
  intro graph
  have hsorted : graph.Sorted := ((sorted_empty.add _ _ _).add _ _ _).add _ _ _
  have hcycle : graph.cycle? = none := by cbv
  have hdone : (graph.startSorting.steps graph graph.nodes.length).done =
      ["core", "util", "main"] := by decide +kernel
  have horder : graph.order = .ok ["core", "util", "main"] := by
    rw [order, hcycle, ← hdone]
  obtain ⟨order, hok, hperm, hfirst⟩ := (order_exact hsorted).2.1 hcycle
  rw [horder] at hok
  cases hok
  exact ⟨hsorted, horder, hperm, hfirst⟩

end Custody.ImportGraph
