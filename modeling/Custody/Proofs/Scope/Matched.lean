import Custody.Check.Rule
import Custody.Proofs.Program.Reading
import Custody.Proofs.Scope.Table

/-! Two tables side by side. They have the same scopes, and their symbols are related one to one. What
is asked of a table about types is answered alike by tables that differ in no more than which
variables have been moved. -/

namespace Custody

theorem rel_cases {α : Type} {r : α → α → Prop} {a b : Option α} (h : Option.Rel r a b) :
    a = none ∧ b = none ∨ ∃ x y, a = some x ∧ b = some y ∧ r x y := by
  cases h with
  | none => exact .inl ⟨rfl, rfl⟩
  | some h => exact .inr ⟨_, _, rfl, rfl, h⟩

theorem rel_refl {α : Type} {r : α → α → Prop} (hr : ∀ a, r a a) : ∀ a : Option α, Option.Rel r a a
  | none => .none
  | some a => .some (hr a)

theorem map_eq_of_forall₂ {α β : Type} {f : α → β} {xs : List α} {ys : List β}
    (h : List.Forall₂ (fun a b => f a = b) xs ys) : xs.map f = ys := by
  rw [← List.forall₂_eq_eq_eq]
  exact List.forall₂_map_left_iff.2 h

namespace Scope

variable {r : Symbol → Symbol → Prop} {left right : Scope} {name : String} {f g : Symbol → Symbol}

theorem contains_matched (hname : ∀ {a b}, r a b → b.name = a.name)
    (h : List.Forall₂ r left right) : right.contains name = left.contains name := by
  unfold contains
  induction h with
  | nil => rfl
  | cons hhead _ ih => rw [List.any_cons, List.any_cons, hname hhead, ih]

theorem update_matched (hname : ∀ {a b}, r a b → b.name = a.name)
    (hf : ∀ {a b}, r a b → r (f a) (g b)) (h : List.Forall₂ r left right) :
    List.Forall₂ r (left.update name f) (right.update name g) := by
  unfold update
  rw [List.forall₂_map_left_iff, List.forall₂_map_right_iff]
  refine h.imp fun a b hab => ?_
  rw [hname hab]
  split
  · exact hf hab
  · exact hab

theorem update_id (scope : Scope) (name : String) : scope.update name id = scope := by
  simp [update]

end Scope

namespace Table

/-- The tables have the same scopes, with symbols that are related one to one. -/
structure Matched (r : Symbol → Symbol → Prop) (left right : Table) : Prop where
  root : List.Forall₂ r left.root right.root
  inner : List.Forall₂ (List.Forall₂ r) left.inner right.inner

theorem updateFirst_id (scopes : List Scope) (name : String) :
    updateFirst name id scopes = none ∨ updateFirst name id scopes = some scopes := by
  induction scopes with
  | nil => exact .inl rfl
  | cons scope rest ih =>
      rw [updateFirst]
      split
      · exact .inr (by rw [Scope.update_id])
      · rcases ih with hnone | hsome
        · exact .inl (by rw [hnone]; rfl)
        · exact .inr (by rw [hsome]; rfl)

theorem update_id (table : Table) (name : String) : table.update name id = table := by
  unfold update
  rcases updateFirst_id table.inner name with hnone | hsome
  · rw [hnone, Scope.update_id]
  · rw [hsome]

namespace Matched

variable {r q : Symbol → Symbol → Prop} {left right : Table} {name : String} {f g : Symbol → Symbol}

theorem refl (hr : ∀ a, r a a) (table : Table) : Matched r table table where
  root := List.forall₂_same.2 fun a _ => hr a
  inner := List.forall₂_same.2 fun _ _ => List.forall₂_same.2 fun a _ => hr a

theorem mono (h : Matched r left right) (hrq : ∀ a b, r a b → q a b) : Matched q left right where
  root := h.root.imp hrq
  inner := h.inner.imp fun _ _ hscope => hscope.imp hrq

theorem eq (h : Matched r left right) (hr : ∀ a b, r a b → a = b) : left = right := by
  obtain ⟨hroot, hinner⟩ := h.mono hr
  simp only [List.forall₂_eq_eq_eq] at hroot hinner
  rcases left with ⟨root, inner⟩
  rw [show root = right.root from hroot, show inner = right.inner from hinner]

theorem map_scopes (h : Matched (fun a b => f a = b) left right) :
    left.scopes.map (·.map f) = right.scopes := by
  have hinner : left.inner.map (·.map f) = right.inner :=
    map_eq_of_forall₂ (h.inner.imp fun _ _ => map_eq_of_forall₂)
  rw [scopes, scopes, List.map_cons, map_eq_of_forall₂ h.root, List.map_reverse, hinner]

theorem depth_eq (h : Matched r left right) : right.depth = left.depth :=
  h.inner.length_eq.symm

theorem current (h : Matched r left right) : List.Forall₂ r left.current right.current := by
  rcases left with ⟨root, inner⟩
  rcases right with ⟨root', inner'⟩
  cases h.inner with
  | nil => exact h.root
  | cons hscope _ => exact hscope

theorem push (h : Matched r left right) : Matched r left.push right.push :=
  ⟨h.root, .cons .nil h.inner⟩

theorem append {a b : Symbol} (h : Matched r left right) (hab : r a b) :
    Matched r (left.append a) (right.append b) := by
  rcases left with ⟨root, inner⟩
  rcases right with ⟨root', inner'⟩
  obtain ⟨hroot, hinner⟩ := h
  cases hinner with
  | nil => exact ⟨List.rel_append hroot (.cons hab .nil), .nil⟩
  | cons hscope hrest => exact ⟨hroot, .cons (List.rel_append hscope (.cons hab .nil)) hrest⟩

/-- Either both tables lose a scope, or neither has one to lose. -/
theorem pop (h : Matched r left right) :
    (∃ scope scope' popped popped', left.pop = .ok (scope, popped) ∧
      right.pop = .ok (scope', popped') ∧ Matched r popped popped') ∨
    left.pop = .error .underflow ∧ right.pop = .error .underflow := by
  rcases left with ⟨root, inner⟩
  rcases right with ⟨root', inner'⟩
  obtain ⟨hroot, hinner⟩ := h
  cases hinner with
  | nil => exact .inr ⟨rfl, rfl⟩
  | cons hscope hrest => exact .inl ⟨_, _, _, _, rfl, rfl, hroot, hrest⟩

theorem updateFirst {scopes scopes' : List Scope} (hname : ∀ {a b}, r a b → b.name = a.name)
    (hf : ∀ {a b}, r a b → r (f a) (g b)) (h : List.Forall₂ (List.Forall₂ r) scopes scopes') :
    Option.Rel (List.Forall₂ (List.Forall₂ r)) (Table.updateFirst name f scopes)
      (Table.updateFirst name g scopes') := by
  induction h with
  | nil => exact .none
  | cons hscope hrest ih =>
      rw [Table.updateFirst, Table.updateFirst, Scope.contains_matched hname hscope]
      split
      · exact .some (.cons (Scope.update_matched hname hf hscope) hrest)
      · rcases rel_cases ih with ⟨hleft, hright⟩ | ⟨updated, updated', hleft, hright, hupdated⟩
        · rw [hleft, hright]
          exact .none
        · rw [hleft, hright]
          exact .some (.cons hscope hupdated)

theorem update (hname : ∀ {a b}, r a b → b.name = a.name) (hf : ∀ {a b}, r a b → r (f a) (g b))
    (h : Matched r left right) : Matched r (left.update name f) (right.update name g) := by
  unfold Table.update
  rcases rel_cases (updateFirst hname hf h.inner) with
    ⟨hleft, hright⟩ | ⟨inner, inner', hleft, hright, hinner⟩
  · rw [hleft, hright]
    exact ⟨Scope.update_matched hname hf h.root, h.inner⟩
  · rw [hleft, hright]
    exact ⟨h.root, hinner⟩

theorem all_right {p : Symbol → Prop} (hp : ∀ {a b}, r a b → p b) (h : Matched r left right) :
    right.All p := by
  have hscope : ∀ {xs ys : Scope}, List.Forall₂ r xs ys → ∀ b ∈ ys, p b := fun hmatched =>
    forall_mem_of_forall₂ (p := fun _ => True) hmatched (fun _ _ hab _ => hp hab) fun _ _ => trivial
  have hinner : ∀ scope ∈ right.inner, ∀ b ∈ scope, p b :=
    forall_mem_of_forall₂ (p := fun _ => True) h.inner (fun _ _ hab _ => hscope hab)
      fun _ _ => trivial
  exact all_iff_root.2 ⟨hscope h.root, hinner⟩

theorem find? (hr : Symbol.IsChange r) (h : Matched r left right) (name : String) :
    Option.Rel r (left.find? name) (right.find? name) :=
  (Grown.of_inner h.inner h.root).find?_changed hr name

end Matched

/-! ### What types mean -/

variable {left right : Table}

mutual
/-- A type expression does not mean another type because variables have been moved. Only the names in it
matter. -/
theorem resolve_similar : ∀ {type : TypeExpr}, (∀ name ∈ type.names,
    Option.Rel Symbol.Similar (left.find? name) (right.find? name)) →
      right.resolve type = left.resolve type
  | .blank _, _ => rfl
  | .named span name args, h => by
      rw [TypeExpr.names, List.forall_mem_cons] at h
      rw [resolve, resolve, resolveAll_similar h.2]
      rcases rel_cases h.1 with ⟨hleft, hright⟩ | ⟨a, b, hleft, hright, state, rfl⟩
      · simp only [hleft, hright]
      · simp only [hleft, hright, Symbol.isType_setState, Symbol.ty_setState, Symbol.params_setState]

theorem resolveAll_similar : ∀ {types : List TypeExpr}, (∀ name ∈ TypeExpr.namesAll types,
    Option.Rel Symbol.Similar (left.find? name) (right.find? name)) →
      resolveAll right types = resolveAll left types
  | [], _ => rfl
  | type :: types, h => by
      rw [TypeExpr.namesAll, List.forall_mem_append] at h
      rw [resolveAll, resolveAll, resolve_similar h.1, resolveAll_similar h.2]
end

theorem memberType_similar
    (hfind : ∀ name, Option.Rel Symbol.Similar (left.find? name) (right.find? name))
    (object : Ty) (property : Ident) :
    right.memberType object property = left.memberType object property := by
  unfold memberType
  simp only
  split
  · rfl
  · rename_i name args _
    rcases rel_cases (hfind name) with ⟨hleft, hright⟩ | ⟨a, b, hleft, hright, state, rfl⟩
    · simp only [hleft, hright]
    · simp only [hleft, hright, Symbol.fields?_setState, Symbol.params_setState]
  · rfl

theorem isReference_similar
    (hfind : ∀ name, Option.Rel Symbol.Similar (left.find? name) (right.find? name)) (ty : Ty) :
    right.isReference ty = left.isReference ty := by
  unfold isReference
  split
  · rename_i name args
    rcases rel_cases (hfind name) with ⟨hleft, hright⟩ | ⟨a, b, hleft, hright, state, rfl⟩
    · simp only [hleft, hright]
    · simp only [hleft, hright, Option.bind_some, Symbol.semantics?_setState]
  · rfl

end Table

end Custody
