import Custody.Proofs.Library.Order
import Custody.Proofs.Library.Pushing

/-! The store and its graph after any number of requests, from a source that may change its answers.
A module is kept only after all that it imports, so the order in which modules came in is an order
without cycles, and the graph describes just these modules. -/

namespace Custody

/-- The node records the imports and the exported names of a module. -/
structure ImportNode.Describes (node : ImportNode) (module : Module) : Prop where
  path : node.path = module.path
  dependencies : node.dependencies = module.program.dependencies module.path
  exports : ∀ name, name ∈ node.exports ↔ name ∈ module.program.exportNames

namespace Store

variable {fetch : Fetch} {store : Store}

/-! ### Modules in the order of their loading -/

/-- The paths of the modules in the order of their loading. -/
def paths (store : Store) : List String :=
  store.modules.map (·.path)

/-- No path comes twice, and each module comes after those it imports. -/
structure Ordered (store : Store) : Prop where
  distinct : store.paths.Nodup
  importsEarlier : ∀ front module back, store.modules = front ++ module :: back →
    ∀ dependency ∈ module.program.dependencies module.path, dependency ∈ front.map (·.path)

theorem get?_eq_none_iff {path : String} :
    store.get? path = none ↔ path ∉ store.paths := by
  simp [get?, paths]

theorem mem_paths_of_get? {path : String} {module : Module} (h : store.get? path = some module) :
    path ∈ store.paths :=
  path_of_get? h ▸ List.mem_map_of_mem (List.mem_of_find?_eq_some h)

theorem exists_get?_of_mem_paths {path : String} (h : path ∈ store.paths) :
    ∃ module, store.get? path = some module := by
  cases hfound : store.get? path with
  | none => exact absurd h (get?_eq_none_iff.1 hfound)
  | some module => exact ⟨module, rfl⟩

theorem Ordered.get?_eq_some_iff (h : store.Ordered) {path : String} {module : Module} :
    store.get? path = some module ↔ module ∈ store.modules ∧ module.path = path :=
  find?_key_eq_some_iff Module.path h.distinct

theorem paths_keep (module : Module) :
    (store.keep module).paths = store.paths ++ [module.path] := by
  simp [paths, keep, record]

theorem ordered_of_modules_eq_nil (h : store.modules = []) : store.Ordered := by
  refine ⟨by simp [paths, h], ?_⟩
  intro front module back hsplit
  simp [h] at hsplit

theorem Ordered.step {after : Store} (h : store.Ordered) (hstep : Step fetch store after) :
    after.Ordered := by
  cases hstep with
  | ask _ => exact ⟨h.distinct, h.importsEarlier⟩
  | keep _ hnew himports =>
      refine ⟨?_, forall_split_concat h.importsEarlier ?_⟩
      · rw [paths_keep, ← List.concat_eq_append]
        exact h.distinct.concat (get?_eq_none_iff.1 hnew)
      · intro dependency hdep
        obtain ⟨module, hmodule⟩ := himports dependency hdep
        exact mem_paths_of_get? hmodule

theorem Ordered.path_not_in_front (h : store.Ordered) {front back : List Module} {module : Module}
    (hsplit : store.modules = front ++ module :: back) : module.path ∉ front.map (·.path) := by
  have hnodup := h.distinct
  rw [paths, hsplit, List.map_append, List.map_cons] at hnodup
  intro hin
  exact (List.nodup_append.1 hnodup).2.2 _ hin _ List.mem_cons_self rfl

/-- A module is at a later place than what it imports. -/
theorem Ordered.idxOf_lt (h : store.Ordered) {module : Module} (hmem : module ∈ store.modules)
    {dependency : String} (hdep : dependency ∈ module.program.dependencies module.path) :
    store.paths.idxOf dependency <
      store.paths.idxOf module.path := by
  obtain ⟨front, back, hsplit⟩ := List.append_of_mem hmem
  have hfront := h.importsEarlier front module back hsplit dependency hdep
  rw [paths, hsplit, List.map_append, List.map_cons, List.idxOf_append_of_mem hfront,
    List.idxOf_append_of_notMem (h.path_not_in_front hsplit), List.idxOf_cons_self]
  exact Nat.lt_of_lt_of_le (List.idxOf_lt_length_of_mem hfront) (Nat.le_add_right _ _)

/-! ### The graph of the modules -/

/-- The graph has one node for each module, which describes it. -/
structure Charted (store : Store) : Prop where
  paths : store.graph.paths.Perm store.paths
  nodes : ∀ module ∈ store.modules,
    ∃ node, store.graph.get? module.path = some node ∧ node.Describes module

theorem charted_empty : Charted {} :=
  ⟨.refl _, fun module hmem => by cases hmem⟩

theorem Charted.step {after : Store} (h : store.Charted) (hstep : Step fetch store after) :
    after.Charted := by
  cases hstep with
  | ask _ => exact ⟨h.paths, h.nodes⟩
  | @keep _ path program _ hnew _ =>
      have hmodules : path ∉ store.paths := get?_eq_none_iff.1 hnew
      have hgraph : path ∉ store.graph.paths := fun hin => hmodules (h.paths.mem_iff.1 hin)
      constructor
      · rw [paths_keep]
        exact (ImportGraph.paths_add_perm hgraph _ _).trans
          ((h.paths.cons path).trans (List.perm_append_singleton _ _).symm)
      · intro module hmem
        rcases List.mem_append.1 hmem with hold | hlast
        · have hne : path ≠ module.path := by
            rintro rfl
            exact hmodules (List.mem_map_of_mem hold)
          show ∃ node, (store.graph.add path _ _).get? module.path = some node ∧ _
          rw [ImportGraph.get?_add_of_ne hne]
          exact h.nodes module hold
        · cases List.mem_singleton.1 hlast
          exact ⟨_, ImportGraph.get?_add_self _ _ _, rfl, rfl, fun name => mem_sortedSet⟩

/-- Along the imports of the graph one gets to modules that were loaded earlier. -/
theorem Charted.idxOf_lt (h : store.Charted) (hordered : store.Ordered) {path dependency : String}
    (himport : store.graph.Imports path dependency) :
    store.paths.idxOf dependency < store.paths.idxOf path := by
  have hpath := h.paths.mem_iff.1 himport.mem_paths
  obtain ⟨module, hmem, rfl⟩ := List.mem_map.1 hpath
  obtain ⟨node, hnode, hdescribes⟩ := h.nodes module hmem
  obtain ⟨node', hnode', hdep⟩ := himport
  cases hnode.symm.trans hnode'
  exact hordered.idxOf_lt hmem (hdescribes.dependencies ▸ hdep)

theorem Charted.acyclic (h : store.Charted) (hordered : store.Ordered) : store.graph.Acyclic := by
  intro path hloop
  have hdecreases : ∀ first last, Relation.TransGen store.graph.Imports first last →
      store.paths.idxOf last < store.paths.idxOf first := by
    intro first last hchain
    induction hchain with
    | single himport => exact h.idxOf_lt hordered himport
    | tail _ himport ih => exact Nat.lt_trans (h.idxOf_lt hordered himport) ih
  exact Nat.lt_irrefl _ (hdecreases path path hloop)

theorem Charted.exists_order (h : store.Charted) (hordered : store.Ordered) :
    ∃ order, store.graph.order = .ok order ∧ order.Perm store.paths ∧
      store.graph.ImportsFirst order := by
  have hnone := ImportGraph.cycle?_eq_none_of_acyclic (h.acyclic hordered)
  have hnodup : store.graph.paths.Nodup := h.paths.nodup_iff.2 hordered.distinct
  obtain ⟨order, horder, hperm, hfirst⟩ := ImportGraph.exists_order hnodup hnone
  exact ⟨order, horder, hperm.trans h.paths, hfirst⟩

/-! ### After any number of requests -/

theorem Follows.ordered (h : Follows fetch {} store) : store.Ordered :=
  h.steps.keeps (fun hstep hbefore => hbefore.step hstep) (ordered_of_modules_eq_nil rfl)

theorem Follows.charted (h : Follows fetch {} store) : store.Charted :=
  h.steps.keeps (fun hstep hbefore => hbefore.step hstep) charted_empty

theorem Follows.loading_eq {after : Store} (h : Follows fetch store after) :
    after.loading = store.loading :=
  h.steps.loading_eq

/-- Whatever the source answers and however the requests end, of a loader that pushes each path on the
stack of the store and pops it again: nothing is left on the stack, no module
of the store is removed or replaced, the graph describes the modules of the store and no others, all
that they import is in the store, and they can be put in order. -/
theorem requests_keep_store_consistent {earlier later : Store}
    (hearlier : PushFollows fetch {} earlier) (hlater : PushFollows fetch earlier later) :
    later.loading = [] ∧
    (∀ path module, earlier.get? path = some module → later.get? path = some module) ∧
    later.paths.Nodup ∧
    later.graph.paths.Perm later.paths ∧
    (∀ path module, later.get? path = some module → module.path = path ∧
      (∃ node, later.graph.get? path = some node ∧ node.Describes module) ∧
      ∀ dependency ∈ module.program.dependencies path,
        ∃ other, later.get? dependency = some other) ∧
    ∃ order, later.graph.order = .ok order ∧ order.Perm later.paths ∧
      later.graph.ImportsFirst order := by
  rw [pushFollows_iff] at hearlier hlater
  have hfollows : Follows fetch {} later := Relation.ReflTransGen.trans hearlier hlater
  have hordered := hfollows.ordered
  have hcharted := hfollows.charted
  refine ⟨hfollows.loading_eq, fun path module => hlater.steps.get?, hordered.distinct,
    hcharted.paths, ?_, hcharted.exists_order hordered⟩
  intro path module hknown
  obtain ⟨hmem, rfl⟩ := hordered.get?_eq_some_iff.1 hknown
  refine ⟨rfl, hcharted.nodes module hmem, ?_⟩
  intro dependency hdep
  obtain ⟨front, back, hsplit⟩ := List.append_of_mem hmem
  have hfront := hordered.importsEarlier front module back hsplit dependency hdep
  refine exists_get?_of_mem_paths ?_
  rw [paths, hsplit, List.map_append]
  exact List.mem_append_left _ hfront

/-- A source that has the module `b` only when it is asked for it again. -/
def wavering : Source where
  fetch asked path :=
    if path = "a" then .ok (importing ["./b", "b"])
    else if path = "b" ∧ "b" ∈ asked then .ok (importing [])
    else .error (.notFound path)
  paths := ["a", "b"]
  mem_paths := by
    intro asked path program h
    split at h
    · simp [*]
    · split at h
      · simp [*]
      · cases h

/-- A request that fails and, after it, one that succeeds. -/
theorem requests_keep_store_consistent_wavering :
    let earlier : Store := { asked := ["a", "b"] }
    let later : Store := {
      modules := [⟨"b", importing []⟩, ⟨"a", importing ["./b", "b"]⟩]
      graph := { nodes := [⟨"a", ["b", "b"], []⟩, ⟨"b", [], []⟩] }
      asked := ["a", "b", "a", "b"] }
    load wavering "a" {} = (.error (.notFound "b"), earlier) ∧
      load wavering "a" earlier = (.ok ⟨"a", importing ["./b", "b"]⟩, later) ∧
      ∃ order, later.graph.order = .ok order ∧ order.Perm ["b", "a"] ∧
        later.graph.ImportsFirst order := by
  intro earlier later
  have hfails : load wavering "a" {} = (.error (.notFound "b"), earlier) := by cbv
  have hsucceeds : load wavering "a" earlier = (.ok ⟨"a", importing ["./b", "b"]⟩, later) := by cbv
  obtain ⟨-, -, -, -, -, horder⟩ :=
    requests_keep_store_consistent (pushFollows_of_load hfails) (pushFollows_of_load hsucceeds)
  exact ⟨hfails, hsucceeds, horder⟩

end Store

end Custody
