import Custody.Proofs.Library.Order

/-! The load order depends only on which module imports which. Repeated imports raise a counter and
are released as often, one right after the other, and imports from outside of the graph are neither
counted nor ever done. So what one step puts into the queue can be said without counters: in ascending
order, the modules that import the one just taken and whose recorded imports are now all done. Two
sorts of graphs with the same edges go abreast from the first queue to the last. -/

namespace Custody.ImportGraph

variable {graph other : ImportGraph}

/-! ### What one step puts into the queue -/

theorem imports_of_mem (hnodup : graph.paths.Nodup) {node : ImportNode}
    (hmem : node ∈ graph.nodes) : graph.imports node.path = node.dependencies := by
  have hnode : graph.get? node.path = some node := (get?_eq_some_iff hnodup).2 ⟨hmem, rfl⟩
  simp [imports, hnode]

/-- Choosing modules by their imports is choosing nodes. -/
theorem filter_paths (hnodup : graph.paths.Nodup) (chosen : List String → Bool) :
    (graph.paths.filter fun path => chosen (graph.imports path)) =
      (graph.nodes.filter fun node => chosen node.dependencies).map (·.path) := by
  rw [paths, List.filter_map]
  refine congrArg (List.map _) (List.filter_congr fun node hmem => ?_)
  simp only [Function.comp_apply, imports_of_mem hnodup hmem]

/-- The modules that become ready when `path` is done after all of `done`, in ascending order. -/
def freed (graph : ImportGraph) (done : List String) (path : String) : List String :=
  graph.paths.filter fun p =>
    decide (path ∈ graph.imports p ∧ graph.unmet (done ++ [path]) (graph.imports p) = 0)

namespace Sorting

/-- Of several releases of one module only the last one can make it ready. -/
theorem ready_foldl_replicate {path : String} {left : Nat} (times : Nat) {sorting : Sorting}
    (h : sorting.waiting.lookup path = some (left + times)) :
    ((List.replicate times path).foldl release sorting).ready =
      sorting.ready ++ if 0 < times ∧ left = 0 then [path] else [] := by
  induction times generalizing sorting with
  | zero => simp
  | succ times ih =>
      have hlookup : sorting.waiting.lookup path = some (left + times + 1) := h
      rw [List.replicate_succ, List.foldl_cons, ih (lookup_release_self hlookup),
        release_of_lookup hlookup]
      by_cases hlast : left + times = 0
      · obtain ⟨rfl, rfl⟩ := Nat.add_eq_zero_iff.1 hlast
        simp
      · have hmore : (0 < times ∧ left = 0) ↔ 0 < times + 1 ∧ left = 0 := by omega
        simp only [if_neg hlast, hmore]

/-- Releasing module after module, those get ready for which this was all they waited for. -/
theorem Tracks.ready_releases (hnodup : graph.paths.Nodup) {path : String}
    {before rest : List ImportNode} {sorting : Sorting} (hnodes : graph.nodes = before ++ rest)
    (h : Tracks graph (rest.flatMap (releases path)) sorting) :
    ((rest.flatMap (releases path)).foldl Sorting.release sorting).ready =
      sorting.ready ++ (rest.filter fun node =>
        decide (path ∈ node.dependencies ∧
          graph.unmet sorting.done node.dependencies = 0)).map (·.path) := by
  induction rest generalizing before sorting with
  | nil => simp
  | cons node rest ih =>
      have hmem : node ∈ graph.nodes := by simp [hnodes]
      have hothers : node.path ∉ rest.map (·.path) := by
        rw [paths, hnodes, List.map_append, List.map_cons] at hnodup
        exact (List.nodup_cons.1 (List.nodup_append.1 hnodup).2.1).1
      -- nothing but its own releases lowers the counter of the module
      have hlookup : sorting.waiting.lookup node.path =
          some (graph.unmet sorting.done node.dependencies + node.dependencies.count path) := by
        rw [h.counted node hmem, List.flatMap_cons, List.count_append, count_releases_self,
          count_releases_of_notMem hothers, Nat.add_zero]
      have hready := ready_foldl_replicate _ hlookup
      rw [← releases_eq_replicate] at hready
      rw [List.flatMap_cons] at h
      have hreleased : ∀ next ∈ releases path node, next ∈ graph.paths := by
        intro next hnext
        obtain ⟨-, -, rfl⟩ := List.mem_map.1 hnext
        exact List.mem_map_of_mem hmem
      have hnodes' : graph.nodes = (before ++ [node]) ++ rest := by simp [hnodes]
      have hrest := ih hnodes' (h.releaseAll hnodup hreleased)
      rw [List.flatMap_cons, List.foldl_append, hrest, hready, done_foldl_release,
        List.append_assoc, List.filter_cons]
      simp only [List.count_pos_iff, decide_eq_true_eq]
      split <;> simp

/-- A step puts into the queue what its module frees. -/
theorem Tracks.ready_step (hnodup : graph.paths.Nodup) {sorting : Sorting} {path : String}
    {ready : List String} (h : Tracks graph [] sorting) (hready : sorting.ready = path :: ready) :
    (sorting.step graph).ready = ready ++ graph.freed sorting.done path := by
  have htaken := h.taken hnodup hready
  rw [dependents_eq_flatMap] at htaken
  have hstep := htaken.ready_releases hnodup (List.nil_append graph.nodes).symm
  have hfreed := filter_paths hnodup fun imports =>
    decide (path ∈ imports ∧ graph.unmet (sorting.done ++ [path]) imports = 0)
  rw [step_of_ready hready, dependents_eq_flatMap, hstep, freed, hfreed]
  rfl

/-- The first queue holds the modules without recorded imports. -/
theorem ready_start (hnodup : graph.paths.Nodup) :
    graph.startSorting.ready =
      graph.paths.filter fun p => decide (graph.unmet [] (graph.imports p) = 0) := by
  rw [filter_paths hnodup fun imports => decide (graph.unmet [] imports = 0)]
  simp [startSorting, unmet, List.filter_map, Function.comp_def, beq_eq_decide]

end Sorting

/-! ### Graphs with the same edges -/

/-- Both graphs record the same modules, and the same imports between them. -/
structure SameEdges (graph other : ImportGraph) : Prop where
  paths : ∀ path, path ∈ graph.paths ↔ path ∈ other.paths
  edges : ∀ path ∈ graph.paths, ∀ dependency ∈ graph.paths,
    (graph.Imports path dependency ↔ other.Imports path dependency)

/-- Paths stand in ascending order, so there is one way to list them. -/
theorem SameEdges.paths_eq (h : SameEdges graph other) (hsorted : graph.Sorted)
    (hsorted' : other.Sorted) : graph.paths = other.paths := by
  have hperm : graph.paths.Perm other.paths :=
    (List.perm_ext_iff_of_nodup hsorted.nodup_paths hsorted'.nodup_paths).2 h.paths
  have hascending : ∀ {g : ImportGraph}, g.Sorted → g.paths.Pairwise (· < ·) :=
    fun hg => List.pairwise_map.2 hg
  refine hperm.eq_of_pairwise ?_ (hascending hsorted) (hascending hsorted')
  intro first second _ _ hlt hgt
  exact absurd (String.lt_trans hlt hgt) (String.lt_irrefl _)

theorem SameEdges.unmet_iff (h : SameEdges graph other) {path : String}
    (hpath : path ∈ graph.paths) (done : List String) :
    graph.unmet done (graph.imports path) = 0 ↔ other.unmet done (other.imports path) = 0 := by
  rw [unmet_eq_zero_iff, unmet_eq_zero_iff]
  constructor
  · intro hmet dependency hdep hrecorded
    have hrecorded' := (h.paths dependency).2 hrecorded
    have hedge := (h.edges path hpath dependency hrecorded').2 (mem_imports_iff.1 hdep)
    exact hmet dependency (mem_imports_iff.2 hedge) hrecorded'
  · intro hmet dependency hdep hrecorded
    have hedge := (h.edges path hpath dependency hrecorded).1 (mem_imports_iff.1 hdep)
    exact hmet dependency (mem_imports_iff.2 hedge) ((h.paths dependency).1 hrecorded)

theorem SameEdges.freed_eq (h : SameEdges graph other) (hpaths : graph.paths = other.paths)
    {path : String} (hpath : path ∈ graph.paths) (done : List String) :
    graph.freed done path = other.freed done path := by
  rw [freed, freed, ← hpaths]
  refine List.filter_congr fun p hp => ?_
  have hedge : path ∈ graph.imports p ↔ path ∈ other.imports p := by
    rw [mem_imports_iff, mem_imports_iff, h.edges p hp path hpath]
  rw [decide_eq_decide, hedge, h.unmet_iff hp]

/-- A chain of imports between recorded modules is one in both graphs, so both have cycles or none. -/
theorem SameEdges.acyclic (h : SameEdges graph other) (hacyclic : graph.Acyclic) :
    other.Acyclic := by
  have hchain : ∀ {first last : String}, Relation.TransGen other.Imports first last →
      last ∈ graph.paths → Relation.TransGen graph.Imports first last := by
    intro first last hchain
    induction hchain with
    | single hedge =>
        intro hlast
        exact .single ((h.edges _ ((h.paths _).2 hedge.mem_paths) _ hlast).2 hedge)
    | tail _ hedge ih =>
        intro hlast
        have hmiddle := (h.paths _).2 hedge.mem_paths
        exact .tail (ih hmiddle) ((h.edges _ hmiddle _ hlast).2 hedge)
  intro path hloop
  obtain ⟨next, hnext, -⟩ := Relation.TransGen.head'_iff.1 hloop
  exact hacyclic path (hchain hloop ((h.paths path).2 hnext.mem_paths))

/-! ### Two sorts abreast -/

/-- Two sorts with the same queue and the same modules done; only their counters may differ. -/
structure Sorting.Abreast (graph other : ImportGraph) (sorting sorting' : Sorting) : Prop where
  tracks : Tracks graph [] sorting
  tracks' : Tracks other [] sorting'
  ready : sorting.ready = sorting'.ready
  done : sorting.done = sorting'.done

namespace Sorting.Abreast

variable {sorting sorting' : Sorting}

theorem start (h : SameEdges graph other) (hpaths : graph.paths = other.paths)
    (hnodup : graph.paths.Nodup) :
    Abreast graph other graph.startSorting other.startSorting := by
  have hnodup' : other.paths.Nodup := hpaths ▸ hnodup
  refine ⟨tracks_start hnodup, tracks_start hnodup', ?_, rfl⟩
  rw [ready_start hnodup, ready_start hnodup', ← hpaths]
  refine List.filter_congr fun p hp => ?_
  rw [decide_eq_decide, h.unmet_iff hp]

theorem step (h : SameEdges graph other) (hpaths : graph.paths = other.paths)
    (hnodup : graph.paths.Nodup) (habreast : Abreast graph other sorting sorting') :
    Abreast graph other (sorting.step graph) (sorting'.step other) := by
  have hnodup' : other.paths.Nodup := hpaths ▸ hnodup
  cases hready : sorting.ready with
  | nil =>
      rw [step_of_ready_eq_nil hready, step_of_ready_eq_nil (habreast.ready ▸ hready)]
      exact habreast
  | cons path ready =>
      have hready' : sorting'.ready = path :: ready := habreast.ready ▸ hready
      have hpath := ((habreast.tracks.free_iff path).1 (by simp [hready])).1
      refine ⟨habreast.tracks.step hnodup, habreast.tracks'.step hnodup', ?_, ?_⟩
      · rw [habreast.tracks.ready_step hnodup hready, habreast.tracks'.ready_step hnodup' hready',
          habreast.done, h.freed_eq hpaths hpath]
      · rw [done_step hready, done_step hready', habreast.done]

theorem steps (h : SameEdges graph other) (hpaths : graph.paths = other.paths)
    (hnodup : graph.paths.Nodup) (n : Nat) (habreast : Abreast graph other sorting sorting') :
    Abreast graph other (sorting.steps graph n) (sorting'.steps other n) := by
  induction n generalizing sorting sorting' with
  | zero => exact habreast
  | succ n ih => exact ih (habreast.step h hpaths hnodup)

end Sorting.Abreast

/-- Graphs that record the same modules and the same imports between them are put in the same order,
if one of them has no cycle. In which order the modules were added, how often and in which order they
list their imports, and what they import from outside of the graph makes no difference. -/
theorem order_depends_on_edges (hsorted : graph.Sorted) (hsorted' : other.Sorted)
    (h : SameEdges graph other) (hacyclic : graph.Acyclic) :
    ∃ order, graph.order = .ok order ∧ other.order = .ok order := by
  have hpaths := h.paths_eq hsorted hsorted'
  have hnodup := hsorted.nodup_paths
  have hlength : graph.nodes.length = other.nodes.length := by
    have hlengths := congrArg List.length hpaths
    rwa [paths, paths, List.length_map, List.length_map] at hlengths
  have habreast := (Sorting.Abreast.start h hpaths hnodup).steps h hpaths hnodup graph.nodes.length
  refine ⟨(graph.startSorting.steps graph graph.nodes.length).done, ?_, ?_⟩
  · rw [order, cycle?_eq_none_of_acyclic hacyclic]
  · rw [order, cycle?_eq_none_of_acyclic (h.acyclic hacyclic), habreast.done, hlength]

/-- The same modules, added in another order and one of them twice, with other repetitions and with
other imports from outside of the graph. -/
theorem order_depends_on_edges_rebuilt :
    let graph := (((({} : ImportGraph).add "main" ["util", "gone", "util", "core"] ["run"]).add
      "util" ["core", "core"] []).add "core" [] []).add "app" ["core"] []
    let other := ((((({} : ImportGraph).add "core" ["away", "away"] []).add "util" ["main"] []).add
      "app" ["core", "gone", "core"] []).add "main" ["core", "util"] []).add "util" ["core"] []
    SameEdges graph other ∧ graph.order = .ok ["core", "app", "util", "main"] ∧
      other.order = .ok ["core", "app", "util", "main"] := by
  intro graph other
  have hsorted : graph.Sorted := (((sorted_empty.add _ _ _).add _ _ _).add _ _ _).add _ _ _
  have hsorted' : other.Sorted :=
    ((((sorted_empty.add _ _ _).add _ _ _).add _ _ _).add _ _ _).add _ _ _
  have hpaths : graph.paths = other.paths := by decide +kernel
  have hedges : ∀ path ∈ graph.paths, ∀ dependency ∈ graph.paths,
      (dependency ∈ graph.imports path ↔ dependency ∈ other.imports path) := by decide +kernel
  have hsame : SameEdges graph other := by
    refine ⟨fun path => by rw [hpaths], fun path hpath dependency hdep => ?_⟩
    rw [← mem_imports_iff, ← mem_imports_iff]
    exact hedges path hpath dependency hdep
  have hcycle : graph.cycle? = none := by cbv
  have hdone : (graph.startSorting.steps graph graph.nodes.length).done =
      ["core", "app", "util", "main"] := by decide +kernel
  have horder : graph.order = .ok ["core", "app", "util", "main"] := by
    rw [order, hcycle, ← hdone]
  obtain ⟨order, hok, hother⟩ :=
    order_depends_on_edges hsorted hsorted' hsame (acyclic_of_cycle?_eq_none hcycle)
  cases horder.symm.trans hok
  exact ⟨hsame, horder, hother⟩

end Custody.ImportGraph
