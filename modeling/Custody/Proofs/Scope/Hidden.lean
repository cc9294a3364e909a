import Custody.Check.Rule
import Custody.Proofs.Scope.Table

/-! Tables that differ in what they declare under one name. Of all other names they find the same. What
is asked of them about types is answered alike as long as nothing depends on the name: whatever it
stands for in either table, it has no fields, and its values are not shared by reference. -/

namespace Custody

/-- The symbol tells nothing about the values of a type of this name, but for a field of the same
name. -/
def Symbol.isInert (name : String) (symbol : Symbol) : Bool :=
  (symbol.fields?.getD []).all (·.1 == name) && symbol.semantics? != some .reference

theorem Symbol.isInert_of_isVar {symbol : Symbol} (h : symbol.isVar = true) (name : String) :
    symbol.isInert name = true := by
  rcases symbol with ⟨symbolName, kind, ty, visibility, depth, span⟩
  cases kind with
  | var mutable state => rfl
  | _ => cases h

/-! ### Tables without a name -/

namespace Scope

variable {hidden name : String} {symbol : Symbol} {f : Symbol → Symbol}

def without (hidden : String) (scope : Scope) : Scope :=
  scope.filter (·.name != hidden)

theorem get?_without (h : name ≠ hidden) (scope : Scope) :
    (scope.without hidden).get? name = scope.get? name := by
  unfold without get?
  rw [List.find?_filter]
  congr 1
  funext symbol
  by_cases hname : symbol.name = name <;> simp [hname, h]

theorem contains_without (h : name ≠ hidden) (scope : Scope) :
    (scope.without hidden).contains name = scope.contains name := by
  rw [contains_eq_isSome, contains_eq_isSome, get?_without h]

theorem without_append_of_ne (h : symbol.name ≠ hidden) (scope : Scope) :
    without hidden (scope ++ [symbol]) = scope.without hidden ++ [symbol] := by
  simp [without, List.filter_append, h]

theorem without_append_self (h : symbol.name = hidden) (scope : Scope) :
    without hidden (scope ++ [symbol]) = scope.without hidden := by
  simp [without, List.filter_append, h]

theorem without_update (hf : ∀ a, (f a).name = a.name) (scope : Scope) :
    (scope.update name f).without hidden = (scope.without hidden).update name f := by
  unfold without update
  rw [List.filter_map]
  congr 2
  funext symbol
  by_cases hname : symbol.name = name <;> simp [hname, hf]

theorem contains_update (hf : ∀ a, (f a).name = a.name) (scope : Scope) (other : String) :
    (scope.update name f).contains other = scope.contains other := by
  unfold update contains
  rw [List.any_map]
  congr 1
  funext symbol
  by_cases hname : symbol.name = name <;> simp [hname, hf]

end Scope

namespace Table

variable {hidden name : String} {symbol : Symbol} {f : Symbol → Symbol}

def without (hidden : String) (table : Table) : Table where
  root := table.root.without hidden
  inner := table.inner.map (Scope.without hidden)

/-- The table with one more scope above it, already filled. -/
def under (table : Table) (scope : Scope) : Table :=
  { table with inner := scope :: table.inner }

theorem depth_without (hidden : String) (table : Table) : (table.without hidden).depth = table.depth :=
  List.length_map _

theorem without_under (table : Table) (scope : Scope) :
    (table.under scope).without hidden = (table.without hidden).under (scope.without hidden) :=
  rfl

theorem find?_without (h : name ≠ hidden) (table : Table) :
    (table.without hidden).find? name = table.find? name := by
  unfold find? without
  rw [List.findSome?_map, Scope.get?_without h]
  congr 2
  funext scope
  exact Scope.get?_without h scope

theorem current_without (table : Table) :
    (table.without hidden).current = table.current.without hidden := by
  unfold current without
  cases table.inner <;> rfl

theorem without_append_of_ne (h : symbol.name ≠ hidden) (table : Table) :
    (table.append symbol).without hidden = (table.without hidden).append symbol := by
  unfold append without
  cases table.inner with
  | nil => simp [Scope.without_append_of_ne h]
  | cons scope outer => simp [Scope.without_append_of_ne h]

theorem without_append_self (h : symbol.name = hidden) (table : Table) :
    (table.append symbol).without hidden = table.without hidden := by
  unfold append without
  cases hinner : table.inner with
  | nil => simp [Scope.without_append_self h]
  | cons scope outer => simp [Scope.without_append_self h]

theorem updateFirst_without (h : name ≠ hidden) (hf : ∀ a, (f a).name = a.name)
    (scopes : List Scope) :
    updateFirst name f (scopes.map (Scope.without hidden)) =
      (updateFirst name f scopes).map (List.map (Scope.without hidden)) := by
  induction scopes with
  | nil => rfl
  | cons scope outer ih =>
      rw [List.map_cons, updateFirst, updateFirst, Scope.contains_without h, ih]
      split
      · simp [Scope.without_update hf]
      · cases updateFirst name f outer <;> rfl

theorem without_update (h : name ≠ hidden) (hf : ∀ a, (f a).name = a.name) (table : Table) :
    (table.update name f).without hidden = (table.without hidden).update name f := by
  unfold update without
  simp only [updateFirst_without h hf]
  cases updateFirst name f table.inner with
  | none => simp [Scope.without_update hf]
  | some inner => rfl

/-! ### What a name stands for -/

theorem find?_append_of_ne (h : symbol.name ≠ name) (table : Table) :
    (table.append symbol).find? name = table.find? name := by
  have hget : Scope.get? (table.current ++ [symbol]) name = table.current.get? name := by
    simp [Scope.get?, List.find?_append, h]
  rw [find?_eq, find?_eq, current_append, outer_append, hget]

theorem find?_append_self {table : Table} (h : table.current.contains symbol.name = false) :
    (table.append symbol).find? symbol.name = some symbol := by
  have hfree : table.current.get? symbol.name = none := by
    simpa [Scope.contains_eq_isSome] using h
  have hget : Scope.get? (table.current ++ [symbol]) symbol.name = some symbol := by
    rw [Scope.get?] at hfree ⊢
    simp [List.find?_append, hfree]
  rw [find?_eq, current_append, hget, Option.some_or]

theorem find?_update_of_ne (hf : ∀ a, (f a).name = a.name) {other : String} (h : other ≠ name)
    (table : Table) : (table.update name f).find? other = table.find? other := by
  unfold update find?
  split
  · rename_i inner hupdate
    obtain ⟨before, scope, after, symbol, hinner, -, -, rfl⟩ := updateFirst_eq_some hupdate
    rw [hinner, List.findSome?_append, List.findSome?_append, findSome?_get?_cons,
      findSome?_get?_cons, Scope.get?_update_of_ne hf h]
  · rw [Scope.get?_update_of_ne hf h]

theorem find?_under (table : Table) (scope : Scope) (name : String) :
    (table.under scope).find? name = (scope.get? name).or (table.find? name) := by
  unfold under find?
  rw [findSome?_get?_cons, Option.or_assoc]

theorem update_under (table : Table) (scope : Scope) (name : String) (f : Symbol → Symbol) :
    (table.under scope).update name f =
      if scope.contains name then table.under (scope.update name f)
      else (table.update name f).under scope := by
  unfold under update
  simp only [updateFirst]
  by_cases hscope : scope.contains name = true
  · simp only [hscope, if_true]
  · simp only [hscope]
    cases updateFirst name f table.inner <;> rfl

theorem contains_update (hf : ∀ a, (f a).name = a.name) (table : Table) (other : String) :
    (table.update name f).current.contains other = table.current.contains other := by
  rcases table with ⟨root, _ | ⟨scope, outer⟩⟩
  · exact Scope.contains_update hf root other
  · have hupdate : Table.update ⟨root, scope :: outer⟩ name f = _ :=
      update_under ⟨root, outer⟩ scope name f
    rw [hupdate]
    split
    · exact Scope.contains_update hf scope other
    · rfl

/-- Whatever the name stands for, it tells nothing about types. -/
def InertAt (name : String) (table : Table) : Prop :=
  ∀ symbol, table.find? name = some symbol → symbol.isInert name = true

theorem isReference_of_inertAt {table : Table} (h : table.InertAt name) (args : List Ty) :
    table.isReference (.named name args) = false := by
  cases hfind : table.find? name with
  | none => simp [isReference, hfind]
  | some symbol =>
      have hinert := h symbol hfind
      rw [Symbol.isInert, Bool.and_eq_true, bne_iff_ne] at hinert
      simp [isReference, hfind, hinert.2]

theorem memberType_of_inertAt {table : Table} (h : table.InertAt name) {object : Ty} {args : List Ty}
    (hobject : object.strip = .named name args) {property : Ident} (hproperty : property.name ≠ name) :
    table.memberType object property =
      .error ⟨.unknownMember (.named name args) property.name, property.span⟩ := by
  unfold memberType
  simp only [hobject]
  cases hfind : table.find? name with
  | none => rfl
  | some symbol =>
      have hinert := h symbol hfind
      rw [Symbol.isInert, Bool.and_eq_true, List.all_eq_true] at hinert
      have hlookup : (symbol.fields?.getD []).lookup property.name = none := by
        refine List.lookup_eq_none_iff.2 fun field hfield => ?_
        have hname : field.1 = name := by simpa using hinert.1 field hfield
        simpa [hname] using hproperty
      simp only [hlookup]

/-- A variable tells nothing about types, whatever it hides. -/
theorem inertAt_append {table : Table} (hfree : table.current.contains symbol.name = false)
    (hvar : symbol.isVar = true) : (table.append symbol).InertAt symbol.name := by
  intro found hfound
  rw [find?_append_self hfree] at hfound
  cases hfound
  exact Symbol.isInert_of_isVar hvar symbol.name

/-! ### Hiding -/

/-- The tables differ in what they declare under the name `hidden` only, and not at all in the `opened`
innermost scopes, which do not declare it. -/
inductive Hiding (hidden : String) : (opened : Nat) → Table → Table → Prop
  | base {left right : Table} (same : right.without hidden = left.without hidden)
      (inert : left.InertAt hidden) (inert' : right.InertAt hidden) : Hiding hidden 0 left right
  | scope {n : Nat} {left right : Table} {scope : Scope} (h : Hiding hidden n left right)
      (free : scope.contains hidden = false) :
      Hiding hidden (n + 1) (left.under scope) (right.under scope)

namespace Hiding

variable {n : Nat} {left right : Table}

/-- A variable hides what tells nothing about types. -/
theorem of_append {table : Table} (hfree : table.current.contains symbol.name = false)
    (hvar : symbol.isVar = true) (hinert : table.InertAt symbol.name) :
    Hiding symbol.name 0 table (table.append symbol) :=
  .base (without_append_self rfl table) hinert (inertAt_append hfree hvar)

theorem without_eq (h : Hiding hidden n left right) :
    right.without hidden = left.without hidden := by
  induction h with
  | base same => exact same
  | scope _ _ ih => rw [without_under, without_under, ih]

theorem depth_eq (h : Hiding hidden n left right) : right.depth = left.depth := by
  rw [← depth_without hidden, h.without_eq, depth_without]

theorem find?_eq (h : Hiding hidden n left right) (hname : name ≠ hidden) :
    right.find? name = left.find? name := by
  rw [← find?_without hname, h.without_eq, find?_without hname]

theorem contains_eq (h : Hiding hidden n left right) (hname : name ≠ hidden) :
    right.current.contains name = left.current.contains name := by
  rw [← Scope.contains_without hname, ← current_without, h.without_eq, current_without,
    Scope.contains_without hname]

theorem inertAt (h : Hiding hidden n left right) : left.InertAt hidden ∧ right.InertAt hidden := by
  induction h with
  | base _ inert inert' => exact ⟨inert, inert'⟩
  | @scope _ left right scope _ free ih =>
      have hfree : scope.get? hidden = none := by simpa [Scope.contains_eq_isSome] using free
      have hleft : (left.under scope).find? hidden = left.find? hidden := by
        rw [find?_under, hfree, Option.none_or]
      have hright : (right.under scope).find? hidden = right.find? hidden := by
        rw [find?_under, hfree, Option.none_or]
      unfold InertAt
      rw [hleft, hright]
      exact ih

theorem isReference_eq (h : Hiding hidden n left right) (ty : Ty) :
    right.isReference ty = left.isReference ty := by
  cases ty with
  | named name args =>
      by_cases hname : name = hidden
      · rw [hname, isReference_of_inertAt h.inertAt.1, isReference_of_inertAt h.inertAt.2]
      · rw [isReference, isReference, h.find?_eq hname]
  | _ => rfl

theorem memberType_eq (h : Hiding hidden n left right) {property : Ident}
    (hproperty : property.name ≠ hidden) (object : Ty) :
    right.memberType object property = left.memberType object property := by
  cases hobject : object.strip with
  | named name args =>
      by_cases hname : name = hidden
      · subst hname
        rw [memberType_of_inertAt h.inertAt.1 hobject hproperty,
          memberType_of_inertAt h.inertAt.2 hobject hproperty]
      · simp only [memberType, hobject, h.find?_eq hname]
  | _ => simp only [memberType, hobject]

theorem append (h : Hiding hidden n left right) (hname : symbol.name ≠ hidden) :
    Hiding hidden n (left.append symbol) (right.append symbol) := by
  cases h with
  | base same inert inert' =>
      refine .base ?_ ?_ ?_
      · rw [without_append_of_ne hname, without_append_of_ne hname, same]
      · rw [InertAt, find?_append_of_ne hname]
        exact inert
      · rw [InertAt, find?_append_of_ne hname]
        exact inert'
  | @scope _ left right scope h free =>
      have hfree : Scope.contains (scope ++ [symbol]) hidden = false := by
        simpa [Scope.contains, hname] using free
      exact .scope h hfree

theorem setState {state : Holding} (h : Hiding hidden n left right) (hname : name ≠ hidden) :
    Hiding hidden n (left.update name (Symbol.setState state))
      (right.update name (Symbol.setState state)) := by
  have hf := Symbol.name_setState state
  induction h with
  | base same inert inert' =>
      refine .base ?_ ?_ ?_
      · rw [without_update hname hf, without_update hname hf, same]
      · rw [InertAt, find?_update_of_ne hf hname.symm]
        exact inert
      · rw [InertAt, find?_update_of_ne hf hname.symm]
        exact inert'
  | @scope _ left right scope h free ih =>
      rw [update_under, update_under]
      split
      · refine .scope h ?_
        rw [Scope.contains_eq_isSome, Scope.get?_update_of_ne hf hname.symm,
          ← Scope.contains_eq_isSome, free]
      · exact .scope ih free

theorem push (h : Hiding hidden n left right) : Hiding hidden (n + 1) left.push right.push :=
  .scope h rfl

theorem pop (h : Hiding hidden (n + 1) left right) : ∃ scope scope' popped popped',
    left.pop = .ok (scope, popped) ∧ right.pop = .ok (scope', popped') ∧
      Hiding hidden n popped popped' := by
  cases h with
  | @scope _ left right scope h free => exact ⟨scope, scope, left, right, rfl, rfl, h⟩

end Hiding

end Table

end Custody
