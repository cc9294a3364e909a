import Custody.Library.Graph.Basic
import Mathlib.Data.List.Nodup
import Mathlib.Data.List.Perm.Basic

/-! Adding modules to the graph of imports. A node is found again under its path, the other nodes
stay as they were, and the paths keep their order. -/

namespace Custody

/-- With distinct keys, a member is what is found under its key. -/
theorem find?_key_eq_some_iff {α κ : Type} [BEq κ] [LawfulBEq κ] (key : α → κ) {items : List α}
    {k : κ} {item : α} (hnodup : (items.map key).Nodup) :
    items.find? (key · == k) = some item ↔ item ∈ items ∧ key item = k := by
  constructor
  · intro h
    exact ⟨List.mem_of_find?_eq_some h, by simpa using List.find?_some h⟩
  · rintro ⟨hmem, rfl⟩
    cases hfound : items.find? (key · == key item) with
    | none =>
        have habsent := List.find?_eq_none.1 hfound item hmem
        simp at habsent
    | some other =>
        have hkey : key other = key item := by simpa using List.find?_some hfound
        rw [List.inj_on_of_nodup_map hnodup (List.mem_of_find?_eq_some hfound) hmem hkey]

/-- What holds of every member of a list and what is in front of it, still holds when it also holds of
one more member. -/
theorem forall_split_concat {α : Type} {good : List α → α → Prop} {items : List α} {last : α}
    (h : ∀ front item back, items = front ++ item :: back → good front item)
    (hlast : good items last) :
    ∀ front item back, items ++ [last] = front ++ item :: back → good front item := by
  intro front item back hsplit
  rcases List.eq_nil_or_concat back with rfl | ⟨rest, final, rfl⟩
  · obtain ⟨rfl, hitem⟩ := List.append_inj' hsplit rfl
    cases hitem
    exact hlast
  · have hsplit' : items ++ [last] = (front ++ item :: rest) ++ [final] := by simpa using hsplit
    exact h front item rest (List.append_inj' hsplit' rfl).1

/-- Sorting a list of texts keeps its members. -/
theorem mem_insertSorted {text other : String} {texts : List String} :
    other ∈ insertSorted text texts ↔ other = text ∨ other ∈ texts := by
  induction texts with
  | nil => simp [insertSorted]
  | cons t rest ih =>
      rw [insertSorted]
      by_cases hlt : text < t
      · simp [hlt]
      · by_cases heq : text = t
        · subst heq
          simp
        · simp only [if_neg hlt, if_neg heq, List.mem_cons, ih]
          exact or_left_comm

theorem mem_sortedSet {text : String} {texts : List String} :
    text ∈ sortedSet texts ↔ text ∈ texts := by
  induction texts with
  | nil => simp [sortedSet]
  | cons t rest ih =>
      rw [sortedSet, List.foldr_cons, mem_insertSorted, List.mem_cons]
      exact or_congr_right ih

namespace ImportGraph

/-! ### One node added -/

theorem mem_insertNode {node other : ImportNode} {nodes : List ImportNode}
    (h : other ∈ insertNode node nodes) : other = node ∨ other ∈ nodes := by
  induction nodes with
  | nil => simpa [insertNode] using h
  | cons n rest ih =>
      rw [insertNode] at h
      split at h
      · simpa using h
      · split at h
        · rcases List.mem_cons.1 h with h | h
          · exact .inl h
          · exact .inr (List.mem_cons_of_mem _ h)
        · rcases List.mem_cons.1 h with h | h
          · exact .inr (h ▸ List.mem_cons_self)
          · exact (ih h).imp_right (List.mem_cons_of_mem _)

theorem find?_insertNode_self (node : ImportNode) (nodes : List ImportNode) :
    (insertNode node nodes).find? (·.path == node.path) = some node := by
  induction nodes with
  | nil => simp [insertNode]
  | cons n rest ih =>
      rw [insertNode]
      by_cases hlt : node.path < n.path
      · simp [hlt]
      · by_cases heq : node.path = n.path
        · simp [heq]
        · rw [if_neg hlt, if_neg heq, List.find?_cons_of_neg (by simpa using Ne.symm heq)]
          exact ih

theorem find?_insertNode_of_ne {node : ImportNode} {path : String} (hne : node.path ≠ path)
    (nodes : List ImportNode) :
    (insertNode node nodes).find? (·.path == path) = nodes.find? (·.path == path) := by
  induction nodes with
  | nil => simp [insertNode, hne]
  | cons n rest ih =>
      rw [insertNode]
      by_cases hlt : node.path < n.path
      · rw [if_pos hlt, List.find?_cons_of_neg (by simpa using hne)]
      · by_cases heq : node.path = n.path
        · have hn : n.path ≠ path := heq ▸ hne
          rw [if_neg hlt, if_pos heq, List.find?_cons_of_neg (by simpa using hne),
            List.find?_cons_of_neg (by simpa using hn)]
        · rw [if_neg hlt, if_neg heq]
          by_cases hn : n.path = path
          · simp [hn]
          · rw [List.find?_cons_of_neg (by simpa using hn), ih,
              List.find?_cons_of_neg (by simpa using hn)]

/-- A node of a new path replaces nothing. -/
theorem insertNode_perm {node : ImportNode} {nodes : List ImportNode}
    (hnew : node.path ∉ nodes.map (·.path)) : (insertNode node nodes).Perm (node :: nodes) := by
  induction nodes with
  | nil => exact .refl _
  | cons n rest ih =>
      simp only [List.map_cons, List.mem_cons, not_or] at hnew
      rw [insertNode]
      by_cases hlt : node.path < n.path
      · rw [if_pos hlt]
      · rw [if_neg hlt, if_neg hnew.1]
        exact ((ih hnew.2).cons n).trans (.swap _ _ _)

variable {graph : ImportGraph}

theorem get?_add_self (path : String) (dependencies exports : List String) :
    (graph.add path dependencies exports).get? path =
      some ⟨path, dependencies, sortedSet exports⟩ :=
  find?_insertNode_self ⟨path, dependencies, sortedSet exports⟩ graph.nodes

theorem get?_add_of_ne {path other : String} (hne : path ≠ other)
    (dependencies exports : List String) :
    (graph.add path dependencies exports).get? other = graph.get? other :=
  find?_insertNode_of_ne hne graph.nodes

theorem paths_add_perm {path : String} (hnew : path ∉ graph.paths)
    (dependencies exports : List String) :
    (graph.add path dependencies exports).paths.Perm (path :: graph.paths) := by
  let node : ImportNode := ⟨path, dependencies, sortedSet exports⟩
  have hperm : (insertNode node graph.nodes).Perm (node :: graph.nodes) := insertNode_perm hnew
  exact hperm.map fun n => n.path

/-! ### Graphs that are built by adding modules -/

/-- The nodes stand in ascending order of their paths, so no two of them share one. -/
def Sorted (graph : ImportGraph) : Prop :=
  graph.nodes.Pairwise (·.path < ·.path)

theorem sorted_empty : Sorted {} :=
  List.Pairwise.nil

theorem sorted_insertNode {nodes : List ImportNode} (h : nodes.Pairwise (·.path < ·.path))
    (node : ImportNode) : (insertNode node nodes).Pairwise (·.path < ·.path) := by
  induction nodes with
  | nil => exact List.pairwise_singleton _ _
  | cons n rest ih =>
      obtain ⟨hfirst, hrest⟩ := List.pairwise_cons.1 h
      rw [insertNode]
      by_cases hlt : node.path < n.path
      · rw [if_pos hlt]
        refine List.pairwise_cons.2 ⟨?_, h⟩
        intro m hm
        rcases List.mem_cons.1 hm with rfl | hm
        · exact hlt
        · exact String.lt_trans hlt (hfirst m hm)
      · by_cases heq : node.path = n.path
        · rw [if_neg hlt, if_pos heq]
          exact List.pairwise_cons.2 ⟨fun m hm => heq ▸ hfirst m hm, hrest⟩
        · rw [if_neg hlt, if_neg heq]
          have hgt : n.path < node.path :=
            Std.lt_of_le_of_ne (String.not_lt.1 hlt) (Ne.symm heq)
          refine List.pairwise_cons.2 ⟨?_, ih hrest⟩
          intro m hm
          rcases mem_insertNode hm with rfl | hm
          · exact hgt
          · exact hfirst m hm

theorem Sorted.add (h : graph.Sorted) (path : String) (dependencies exports : List String) :
    (graph.add path dependencies exports).Sorted :=
  sorted_insertNode h _

theorem Sorted.nodup_paths (h : graph.Sorted) : graph.paths.Nodup := by
  refine List.pairwise_map.2 (h.imp ?_)
  intro first second hlt heq
  exact String.lt_irrefl _ (heq ▸ hlt)

/-! ### Nodes under their paths -/

theorem get?_eq_some_iff (hnodup : graph.paths.Nodup) {path : String} {node : ImportNode} :
    graph.get? path = some node ↔ node ∈ graph.nodes ∧ node.path = path :=
  find?_key_eq_some_iff ImportNode.path hnodup

end ImportGraph

end Custody
