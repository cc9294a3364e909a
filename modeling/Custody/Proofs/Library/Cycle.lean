import Custody.Library.Graph.Cycle
import Mathlib.Data.List.Chain
import Mathlib.Data.List.Nodup
import Mathlib.Logic.Relation

/-! The search for circular imports finds a cycle exactly if there is one. A path that the search has
left behind is settled: no chain of imports from it goes on for ever. The stack is a chain of
imports, so a path that comes up twice on it closes a cycle. -/

namespace Custody

/-- A cut at the first occurrence of a member starts with it. -/
theorem dropWhile_ne_eq_cons {stack : List String} {path : String} (h : path ∈ stack) :
    ∃ rest, stack.dropWhile (· != path) = path :: rest := by
  induction stack with
  | nil => simp at h
  | cons p rest ih =>
      by_cases hp : p = path
      · subst hp
        exact ⟨rest, by simp⟩
      · rw [List.dropWhile_cons_of_pos (by simpa using hp)]
        exact ih ((List.mem_cons.1 h).resolve_left (Ne.symm hp))

/-- Coming back to a path on the stack gives a part of the stack with the path at both ends. -/
theorem cycleThrough_eq {stack : List String} {path : String} (h : path ∈ stack) :
    ∃ rest, cycleThrough stack path = path :: rest ++ [path] ∧ path :: rest <:+ stack := by
  obtain ⟨rest, hcut⟩ := dropWhile_ne_eq_cons h
  exact ⟨rest, by rw [cycleThrough, hcut], hcut ▸ List.dropWhile_suffix _⟩

theorem two_le_length_cycleThrough {stack : List String} {path : String} (h : path ∈ stack) :
    2 ≤ (cycleThrough stack path).length := by
  obtain ⟨rest, heq, -⟩ := cycleThrough_eq h
  simp [heq]

theorem head?_cycleThrough {stack : List String} {path : String} (h : path ∈ stack) :
    (cycleThrough stack path).head? = (cycleThrough stack path).getLast? := by
  obtain ⟨rest, heq, -⟩ := cycleThrough_eq h
  rw [heq, List.getLast?_concat]
  rfl

/-- If the stack is a chain that goes on to one of its paths, it closes up there. -/
theorem isChain_cycleThrough {R : String → String → Prop} {stack : List String} {path : String}
    (hlinked : stack.IsChain R) (hmem : path ∈ stack) (htop : ∀ top ∈ stack.getLast?, R top path) :
    (cycleThrough stack path).IsChain R := by
  obtain ⟨rest, heq, hsuffix⟩ := cycleThrough_eq hmem
  rw [heq]
  refine (hlinked.suffix hsuffix).append (List.isChain_singleton _) ?_
  intro top hlast next hnext
  cases hnext
  refine htop top ?_
  obtain ⟨front, rfl⟩ := hsuffix
  simpa [List.getLast?_append] using hlast

namespace ImportGraph

/-- The graph records `dependency` among the imports of `path`. -/
def Imports (graph : ImportGraph) (path dependency : String) : Prop :=
  ∃ node, graph.get? path = some node ∧ dependency ∈ node.dependencies

/-- No chain of imports leads from a path back to it. -/
def Acyclic (graph : ImportGraph) : Prop :=
  ∀ path, ¬Relation.TransGen graph.Imports path path

/-- A cycle from a path back to it: nothing else comes twice, and each path before the last one is a
recorded module that imports the next. -/
structure IsCycle (graph : ImportGraph) (cycle : List String) : Prop where
  length : 2 ≤ cycle.length
  closed : cycle.head? = cycle.getLast?
  distinct : cycle.dropLast.Nodup
  linked : cycle.IsChain fun path next => path ∈ graph.paths ∧ graph.Imports path next

variable {graph : ImportGraph}

theorem mem_imports_iff {path dependency : String} :
    dependency ∈ graph.imports path ↔ graph.Imports path dependency := by
  unfold imports Imports
  cases graph.get? path <;> simp

theorem Imports.mem_paths {path dependency : String} (h : graph.Imports path dependency) :
    path ∈ graph.paths :=
  mem_paths_of_mem_imports (mem_imports_iff.2 h)

/-! ### What the search leaves behind -/

/-- Every chain of imports from `path` ends. -/
def Ends (graph : ImportGraph) (path : String) : Prop :=
  Acc (fun dependency path => graph.Imports path dependency) path

/-- What has been seen and is not on the stack is done with. -/
def Settled (graph : ImportGraph) (stack seen : List String) : Prop :=
  ∀ path ∈ seen, path ∉ stack → graph.Ends path

theorem Ends.not_transGen {path : String} (h : graph.Ends path) :
    ¬Relation.TransGen graph.Imports path path := by
  induction h with
  | intro path _ ih =>
      intro hloop
      obtain ⟨next, hnext, hback⟩ := Relation.TransGen.head'_iff.1 hloop
      exact ih next hnext (Relation.TransGen.tail' hback hnext)

/-- Entering a path leaves everything settled that was settled before. -/
theorem Settled.enter {stack seen : List String} {path : String} (h : graph.Settled stack seen) :
    graph.Settled (stack ++ [path]) (path :: seen) := by
  intro p hp hstack
  simp only [List.mem_append, List.mem_singleton, not_or] at hstack
  exact h p ((List.mem_cons.1 hp).resolve_left hstack.2) hstack.1

/-- A path can be left once all its imports have ended. -/
theorem Settled.leave {stack seen : List String} {path : String}
    (h : graph.Settled (stack ++ [path]) seen)
    (himports : ∀ dependency ∈ graph.imports path, graph.Ends dependency) :
    graph.Settled stack seen := by
  intro p hp hstack
  by_cases hpath : p = path
  · subst hpath
    exact ⟨_, fun dependency hdep => himports dependency (mem_imports_iff.2 hdep)⟩
  · exact h p hp (by simp [hstack, hpath])

/-- A search without a cycle settles what it has searched. -/
theorem visitAll_settles (graph : ImportGraph) : ∀ stack dependencies seen,
    graph.Settled stack seen → ∀ seen', visitAll graph stack dependencies seen = .ok seen' →
      seen ⊆ seen' ∧ graph.Settled stack seen' ∧
        ∀ dependency ∈ dependencies, dependency ∈ seen' ∧ dependency ∉ stack := by
  apply visitAll.induct graph
    (fun stack path seen => path ∉ stack → graph.Settled stack seen →
      ∀ seen', visit graph stack path seen = .ok seen' →
        seen ⊆ seen' ∧ path ∈ seen' ∧ graph.Settled stack seen')
    (fun stack dependencies seen => graph.Settled stack seen →
      ∀ seen', visitAll graph stack dependencies seen = .ok seen' →
        seen ⊆ seen' ∧ graph.Settled stack seen' ∧
          ∀ dependency ∈ dependencies, dependency ∈ seen' ∧ dependency ∉ stack)
  · intro stack path seen hroom ih _ hsettled seen' hvisit
    rw [visit, dif_pos hroom] at hvisit
    obtain ⟨hsub, hinner, hdeps⟩ := ih hsettled.enter seen' hvisit
    have hends : ∀ dependency ∈ graph.imports path, graph.Ends dependency := by
      intro dependency hdep
      exact hinner dependency (hdeps dependency hdep).1 (hdeps dependency hdep).2
    exact ⟨fun p hp => hsub (List.mem_cons_of_mem _ hp), hsub List.mem_cons_self,
      hinner.leave hends⟩
  · intro stack path seen hroom hstack hsettled seen' hvisit
    rw [visit, dif_neg hroom] at hvisit
    cases hvisit
    -- a path outside of the graph has no imports
    have hout : path ∉ graph.paths := fun hmem => hroom ⟨hmem, hstack⟩
    refine ⟨List.subset_cons_self _ _, List.mem_cons_self, hsettled.enter.leave ?_⟩
    intro dependency hdep
    exact absurd (mem_imports_iff.1 hdep).mem_paths hout
  · intro stack seen hsettled seen' hvisit
    rw [visitAll] at hvisit
    cases hvisit
    exact ⟨List.Subset.refl _, hsettled, by simp⟩
  · intro stack dependency rest seen hstack _ seen' hvisit
    rw [visitAll, if_pos hstack] at hvisit
    cases hvisit
  · intro stack dependency rest seen hstack hseen ih hsettled seen' hvisit
    rw [visitAll, if_neg hstack, if_pos hseen] at hvisit
    obtain ⟨hsub, hafter, hdeps⟩ := ih hsettled seen' hvisit
    exact ⟨hsub, hafter, List.forall_mem_cons.2 ⟨⟨hsub hseen, hstack⟩, hdeps⟩⟩
  · intro stack dependency rest seen hstack hseen cycle hfound _ _ seen' hvisit
    rw [visitAll, if_neg hstack, if_neg hseen, hfound] at hvisit
    cases hvisit
  · intro stack dependency rest seen hstack hseen between hfound ihvisit ihrest hsettled seen'
      hvisit
    rw [visitAll, if_neg hstack, if_neg hseen, hfound] at hvisit
    obtain ⟨hsub, hmem, hbetween⟩ := ihvisit hstack hsettled between hfound
    obtain ⟨hsub', hafter, hdeps⟩ := ihrest hbetween seen' hvisit
    exact ⟨List.Subset.trans hsub hsub', hafter, List.forall_mem_cons.2 ⟨⟨hsub' hmem, hstack⟩, hdeps⟩⟩

/-- Without a finding every chain of imports ends. -/
theorem ends_of_cycle?_eq_none (h : graph.cycle? = none) {path : String} (hpath : path ∈ graph.paths) :
    graph.Ends path := by
  unfold cycle? at h
  split at h
  · cases h
  · rename_i seen hsearch
    obtain ⟨-, hsettled, hpaths⟩ :=
      visitAll_settles graph [] graph.paths [] (by simp [Settled]) seen hsearch
    exact hsettled path (hpaths path hpath).1 (by simp)

/-- Without a finding no import is circular. -/
theorem acyclic_of_cycle?_eq_none (h : graph.cycle? = none) : graph.Acyclic := by
  intro path hloop
  obtain ⟨next, hnext, -⟩ := Relation.TransGen.head'_iff.1 hloop
  exact (ends_of_cycle?_eq_none h hnext.mem_paths).not_transGen hloop

/-! ### What the search finds -/

/-- The paths on the stack: each one imports the next, and none comes twice. -/
structure Trail (graph : ImportGraph) (stack : List String) : Prop where
  distinct : stack.Nodup
  linked : stack.IsChain graph.Imports

/-- All of the paths are imports of the innermost one on the stack. -/
def FromTop (graph : ImportGraph) (stack dependencies : List String) : Prop :=
  ∀ top ∈ stack.getLast?, ∀ dependency ∈ dependencies, graph.Imports top dependency

theorem Trail.enter {stack : List String} {path : String} (h : graph.Trail stack)
    (hnew : path ∉ stack) (htop : graph.FromTop stack [path]) :
    graph.Trail (stack ++ [path]) where
  distinct := List.nodup_append.2
    ⟨h.distinct, List.nodup_singleton _, fun p hp q hq => by
      rintro rfl
      exact hnew (List.mem_singleton.1 hq ▸ hp)⟩
  linked := List.IsChain.append h.linked (List.isChain_singleton _) (by
    intro top hlast next hnext
    cases hnext
    exact htop top hlast _ (List.mem_singleton_self _))

/-- Coming back to a path on the stack closes a cycle. -/
theorem Trail.isCycle {stack : List String} {path : String} (h : graph.Trail stack)
    (hmem : path ∈ stack) (htop : graph.FromTop stack [path]) :
    graph.IsCycle (cycleThrough stack path) := by
  refine ⟨two_le_length_cycleThrough hmem, head?_cycleThrough hmem, ?_, ?_⟩
  · obtain ⟨rest, heq, hsuffix⟩ := cycleThrough_eq hmem
    rw [heq, List.dropLast_concat]
    exact h.distinct.sublist hsuffix.sublist
  · have hchain := isChain_cycleThrough h.linked hmem fun top hlast =>
      htop top hlast path (List.mem_singleton_self _)
    exact hchain.imp fun p next hstep => ⟨hstep.mem_paths, hstep⟩

/-- What the search reports is a cycle. -/
theorem visitAll_error_isCycle (graph : ImportGraph) : ∀ stack dependencies seen,
    graph.Trail stack → graph.FromTop stack dependencies →
      ∀ cycle, visitAll graph stack dependencies seen = .error cycle → graph.IsCycle cycle := by
  apply visitAll.induct graph
    (fun stack path seen => graph.Trail stack → graph.FromTop stack [path] →
      ∀ cycle, visit graph stack path seen = .error cycle → graph.IsCycle cycle)
    (fun stack dependencies seen => graph.Trail stack → graph.FromTop stack dependencies →
      ∀ cycle, visitAll graph stack dependencies seen = .error cycle → graph.IsCycle cycle)
  · intro stack path seen hroom ih htrail htop cycle hvisit
    rw [visit, dif_pos hroom] at hvisit
    refine ih (htrail.enter hroom.2 htop) ?_ cycle hvisit
    intro top hlast dependency hdep
    rw [List.getLast?_concat, Option.mem_some_iff] at hlast
    exact hlast ▸ mem_imports_iff.1 hdep
  · intro stack path seen hroom _ _ cycle hvisit
    rw [visit, dif_neg hroom] at hvisit
    cases hvisit
  · intro stack seen _ _ cycle hvisit
    rw [visitAll] at hvisit
    cases hvisit
  · intro stack dependency rest seen hstack htrail htop cycle hvisit
    rw [visitAll, if_pos hstack] at hvisit
    cases hvisit
    exact htrail.isCycle hstack fun top hlast d hd =>
      htop top hlast d (List.mem_singleton.1 hd ▸ List.mem_cons_self)
  · intro stack dependency rest seen hstack hseen ih htrail htop cycle hvisit
    rw [visitAll, if_neg hstack, if_pos hseen] at hvisit
    exact ih htrail (fun top hlast d hd => htop top hlast d (List.mem_cons_of_mem _ hd)) cycle
      hvisit
  · intro stack dependency rest seen hstack hseen found hfound ih htrail htop cycle hvisit
    rw [visitAll, if_neg hstack, if_neg hseen, hfound] at hvisit
    cases hvisit
    exact ih htrail (fun top hlast d hd =>
      htop top hlast d (List.mem_singleton.1 hd ▸ List.mem_cons_self)) _ hfound
  · intro stack dependency rest seen hstack hseen between hfound _ ih htrail htop cycle hvisit
    rw [visitAll, if_neg hstack, if_neg hseen, hfound] at hvisit
    exact ih htrail (fun top hlast d hd => htop top hlast d (List.mem_cons_of_mem _ hd)) cycle
      hvisit

theorem isCycle_of_cycle?_eq_some {cycle : List String} (h : graph.cycle? = some cycle) :
    graph.IsCycle cycle := by
  unfold cycle? at h
  split at h
  · rename_i found hsearch
    cases h
    exact visitAll_error_isCycle graph [] graph.paths []
      ⟨List.nodup_nil, List.isChain_nil⟩ (by simp [FromTop]) cycle hsearch
  · cases h

theorem IsCycle.not_acyclic {cycle : List String} (h : graph.IsCycle cycle) : ¬graph.Acyclic := by
  intro hacyclic
  obtain ⟨hlength, hclosed, -, hlinked⟩ := h
  match cycle, hlength with
  | path :: next :: rest, _ =>
      obtain ⟨hfirst, hrest⟩ := List.isChain_cons_cons.1 hlinked
      have hback := List.relationReflTransGen_of_exists_isChain_cons rest
        (hrest.imp fun _ _ hstep => hstep.2) rfl
      have hlast : (next :: rest).getLast (List.cons_ne_nil _ _) = path := by
        simpa [List.getLast?_eq_some_getLast] using hclosed.symm
      rw [hlast] at hback
      exact hacyclic path (Relation.TransGen.head' hfirst.2 hback)

theorem cycle?_eq_none_of_acyclic (h : graph.Acyclic) : graph.cycle? = none := by
  cases hfound : graph.cycle? with
  | none => rfl
  | some cycle => exact absurd h (isCycle_of_cycle?_eq_some hfound).not_acyclic

/-- A cycle is reported exactly if there is one, and what is reported is one. -/
theorem cycle?_exact (graph : ImportGraph) :
    (graph.cycle? = none ↔ graph.Acyclic) ∧
      ∀ cycle, graph.cycle? = some cycle → graph.IsCycle cycle :=
  ⟨⟨acyclic_of_cycle?_eq_none, cycle?_eq_none_of_acyclic⟩, fun _ => isCycle_of_cycle?_eq_some⟩

/-- Two modules that import each other, next to an import from outside of the graph. -/
theorem cycle?_exact_mutual :
    let graph : ImportGraph := { nodes := [⟨"a", ["gone", "b"], []⟩, ⟨"b", ["a"], []⟩] }
    graph.cycle? = some ["a", "b", "a"] ∧ graph.IsCycle ["a", "b", "a"] ∧ ¬graph.Acyclic := by
  intro graph
  have hfound : graph.cycle? = some ["a", "b", "a"] := by cbv
  refine ⟨hfound, (cycle?_exact graph).2 _ hfound, ?_⟩
  rw [← (cycle?_exact graph).1, hfound]
  exact Option.some_ne_none _

end ImportGraph

end Custody
