import Custody.Scope.Table
import Mathlib.Data.List.Forall2

/-! How a table can change while a piece of a program is checked. The scopes stay, a symbol stays up
to a relation, and only the innermost scope gains symbols. The relation tells how much of a symbol
may change: whether a variable has been moved, its state in either way, or also the fields of a
type. -/

namespace Custody

namespace Symbol

@[simp] theorem setState_setState (first second : Holding) (symbol : Symbol) :
    (symbol.setState first).setState second = symbol.setState second := by
  rcases symbol with ⟨name, kind, ty, visibility, depth, span⟩
  cases kind <;> rfl

@[simp] theorem name_setState (state : Holding) (symbol : Symbol) :
    (symbol.setState state).name = symbol.name := by
  unfold setState
  split <;> rfl

@[simp] theorem ty_setState (state : Holding) (symbol : Symbol) :
    (symbol.setState state).ty = symbol.ty := by
  unfold setState
  split <;> rfl

@[simp] theorem depth_setState (state : Holding) (symbol : Symbol) :
    (symbol.setState state).depth = symbol.depth := by
  unfold setState
  split <;> rfl

@[simp] theorem isVar_setState (state : Holding) (symbol : Symbol) :
    (symbol.setState state).isVar = symbol.isVar := by
  rcases symbol with ⟨name, kind, ty, visibility, depth, span⟩
  cases kind <;> rfl

@[simp] theorem isType_setState (state : Holding) (symbol : Symbol) :
    (symbol.setState state).isType = symbol.isType := by
  rcases symbol with ⟨name, kind, ty, visibility, depth, span⟩
  cases kind <;> rfl

@[simp] theorem isMutable_setState (state : Holding) (symbol : Symbol) :
    (symbol.setState state).isMutable = symbol.isMutable := by
  rcases symbol with ⟨name, kind, ty, visibility, depth, span⟩
  cases kind <;> rfl

@[simp] theorem module?_setState (state : Holding) (symbol : Symbol) :
    (symbol.setState state).module? = symbol.module? := by
  rcases symbol with ⟨name, kind, ty, visibility, depth, span⟩
  cases kind <;> rfl

@[simp] theorem fields?_setState (state : Holding) (symbol : Symbol) :
    (symbol.setState state).fields? = symbol.fields? := by
  rcases symbol with ⟨name, kind, ty, visibility, depth, span⟩
  cases kind <;> rfl

@[simp] theorem params_setState (state : Holding) (symbol : Symbol) :
    (symbol.setState state).params = symbol.params := by
  rcases symbol with ⟨name, kind, ty, visibility, depth, span⟩
  cases kind <;> rfl

@[simp] theorem semantics?_setState (state : Holding) (symbol : Symbol) :
    (symbol.setState state).semantics? = symbol.semantics? := by
  rcases symbol with ⟨name, kind, ty, visibility, depth, span⟩
  cases kind <;> rfl

@[simp] theorem access?_setState (state : Holding) (symbol : Symbol) :
    (symbol.setState state).access? = symbol.access? := by
  simp [access?]

@[simp] theorem key_setState (state : Holding) (symbol : Symbol) :
    (symbol.setState state).key = symbol.key := by
  simp [key]

theorem setState_live {symbol : Symbol} (h : symbol.isMoved = false) :
    symbol.setState .live = symbol := by
  rcases symbol with ⟨name, kind, ty, visibility, depth, span⟩
  cases kind with
  | var mutable state =>
      cases state with
      | live => rfl
      | moved => cases h
  | _ => rfl

@[simp] theorem name_setFields (fields : List (String × Ty)) (symbol : Symbol) :
    (symbol.setFields fields).name = symbol.name := by
  unfold setFields
  split <;> rfl

/-- The same symbol, if it is a variable perhaps in another state. -/
def Similar (before after : Symbol) : Prop :=
  ∃ state, after = before.setState state

/-- The same symbol, if it is a variable perhaps moved since. -/
def Aged (before after : Symbol) : Prop :=
  after = before ∨ after = before.setState .moved

/-- The same symbol up to the state of a variable and the fields of a type. -/
def Revised (before after : Symbol) : Prop :=
  ∃ state fields, after = (before.setState state).setFields fields

theorem similar_refl (symbol : Symbol) : Similar symbol symbol := by
  rcases symbol with ⟨name, kind, ty, visibility, depth, span⟩
  cases kind with
  | var mutable state => exact ⟨state, rfl⟩
  | _ => exact ⟨.live, rfl⟩

theorem Similar.trans {a b c : Symbol} (hab : Similar a b) (hbc : Similar b c) : Similar a c := by
  obtain ⟨first, rfl⟩ := hab
  obtain ⟨second, rfl⟩ := hbc
  exact ⟨second, by simp⟩

theorem similar_setState (state : Holding) (symbol : Symbol) :
    Similar symbol (symbol.setState state) :=
  ⟨state, rfl⟩

theorem aged_refl (symbol : Symbol) : Aged symbol symbol :=
  .inl rfl

theorem Aged.trans {a b c : Symbol} (hab : Aged a b) (hbc : Aged b c) : Aged a c := by
  rcases hab with rfl | rfl
  · exact hbc
  · rcases hbc with rfl | rfl
    · exact .inr rfl
    · exact .inr (by simp)

theorem Aged.similar {a b : Symbol} (h : Aged a b) : Similar a b := by
  rcases h with rfl | rfl
  · exact similar_refl _
  · exact similar_setState .moved a

theorem Similar.revised {a b : Symbol} (h : Similar a b) : Revised a b := by
  obtain ⟨state, rfl⟩ := h
  rcases a with ⟨name, kind, ty, visibility, depth, span⟩
  cases kind with
  | composite semantics fields params => exact ⟨state, fields, rfl⟩
  | _ => exact ⟨state, [], rfl⟩

/-- A variable has no fields and a type has no state, so the last revision counts. -/
theorem Revised.trans {a b c : Symbol} (hab : Revised a b) (hbc : Revised b c) : Revised a c := by
  obtain ⟨state, fields, rfl⟩ := hab
  obtain ⟨state', fields', rfl⟩ := hbc
  refine ⟨state', fields', ?_⟩
  rcases a with ⟨name, kind, ty, visibility, depth, span⟩
  cases kind <;> rfl

theorem revised_setFields (fields : List (String × Ty)) (symbol : Symbol) :
    Revised symbol (symbol.setFields fields) := by
  rcases symbol with ⟨name, kind, ty, visibility, depth, span⟩
  cases kind with
  | var mutable state => exact ⟨state, fields, rfl⟩
  | _ => exact ⟨.live, fields, rfl⟩

/-- A relation between a symbol and what it has become. -/
structure IsChange (r : Symbol → Symbol → Prop) : Prop where
  refl : ∀ a, r a a
  trans : ∀ {a b c}, r a b → r b c → r a c
  revised : ∀ {a b}, r a b → Revised a b

theorem isChange_aged : IsChange Aged :=
  ⟨aged_refl, Aged.trans, fun h => h.similar.revised⟩

theorem isChange_similar : IsChange Similar :=
  ⟨similar_refl, Similar.trans, Similar.revised⟩

theorem isChange_revised : IsChange Revised :=
  ⟨fun a => (similar_refl a).revised, Revised.trans, id⟩

theorem Revised.name_eq {a b : Symbol} (h : Revised a b) : b.name = a.name := by
  obtain ⟨state, fields, rfl⟩ := h
  simp

theorem Similar.key_eq {a b : Symbol} (h : Similar a b) : b.key = a.key := by
  obtain ⟨state, rfl⟩ := h
  simp

theorem Revised.depth_eq {a b : Symbol} (h : Revised a b) : b.depth = a.depth := by
  obtain ⟨state, fields, rfl⟩ := h
  rcases a with ⟨name, kind, ty, visibility, depth, span⟩
  cases kind <;> rfl

end Symbol

namespace Scope

variable {r : Symbol → Symbol → Prop}

theorem forall₂_refl (hr : Symbol.IsChange r) (scope : Scope) : List.Forall₂ r scope scope :=
  List.forall₂_same.2 fun symbol _ => hr.refl symbol

theorem forall₂_trans (hr : Symbol.IsChange r) {a b c : Scope} (hab : List.Forall₂ r a b)
    (hbc : List.Forall₂ r b c) : List.Forall₂ r a c := by
  induction hab generalizing c with
  | nil => exact hbc
  | cons hhead _ ih =>
      cases hbc with
      | cons hhead' htail => exact .cons (hr.trans hhead hhead') (ih htail)

theorem contains_eq_isSome (scope : Scope) (name : String) :
    scope.contains name = (scope.get? name).isSome :=
  List.isSome_find?.symm

theorem forall₂_update (hr : Symbol.IsChange r) {f : Symbol → Symbol} {scope : Scope} {name : String}
    (hf : ∀ a ∈ scope, a.name = name → r a (f a)) :
    List.Forall₂ r scope (scope.update name f) := by
  unfold update
  rw [List.forall₂_map_right_iff]
  refine List.forall₂_same.2 fun symbol hsymbol => ?_
  split
  · rename_i hname
    exact hf symbol hsymbol hname
  · exact hr.refl symbol

theorem get?_update {f : Symbol → Symbol} (hf : ∀ a, (f a).name = a.name) (scope : Scope)
    (name : String) : (scope.update name f).get? name = (scope.get? name).map f := by
  unfold update get?
  induction scope with
  | nil => rfl
  | cons symbol rest ih => by_cases hname : symbol.name = name <;> simp [hname, hf, ih]

theorem get?_update_of_ne {f : Symbol → Symbol} (hf : ∀ a, (f a).name = a.name) {name other : String}
    (h : other ≠ name) (scope : Scope) : (scope.update name f).get? other = scope.get? other := by
  unfold update get?
  induction scope with
  | nil => rfl
  | cons symbol rest ih =>
      by_cases hname : symbol.name = name <;> simp [hname, hf, h.symm, ih, List.find?_cons]

/-- A name is found after a change if and only if it was found before. -/
theorem get?_changed (hr : Symbol.IsChange r) {before after : Scope}
    (h : List.Forall₂ r before after) (name : String) :
    Option.Rel r (before.get? name) (after.get? name) := by
  unfold get?
  induction h with
  | nil => exact .none
  | cons hhead _ ih =>
      rw [List.find?_cons, List.find?_cons, (hr.revised hhead).name_eq]
      split
      · exact .some hhead
      · exact ih

end Scope

namespace Table

/-- The scopes around the innermost one, from the inside to the root. -/
def outer (table : Table) : List Scope :=
  match table.inner with
  | [] => []
  | _ :: rest => rest ++ [table.root]

@[simp] theorem current_push (table : Table) : table.push.current = [] := rfl

@[simp] theorem outer_push (table : Table) : table.push.outer = table.current :: table.outer := by
  unfold outer push current
  cases table.inner <;> rfl

@[simp] theorem current_append (table : Table) (symbol : Symbol) :
    (table.append symbol).current = table.current ++ [symbol] := by
  unfold append current
  cases h : table.inner <;> simp

@[simp] theorem outer_append (table : Table) (symbol : Symbol) :
    (table.append symbol).outer = table.outer := by
  unfold append outer
  cases h : table.inner <;> simp

theorem depth_eq_length_outer (table : Table) : table.depth = table.outer.length := by
  unfold depth outer
  cases table.inner <;> simp

theorem scopes_eq (table : Table) : table.scopes = (table.current :: table.outer).reverse := by
  unfold scopes current outer
  cases table.inner <;> simp

theorem findSome?_get?_cons (scope : Scope) (rest : List Scope) (name : String) :
    (scope :: rest).findSome? (·.get? name) =
      (scope.get? name).or (rest.findSome? (·.get? name)) := by
  rw [List.findSome?_cons]
  cases scope.get? name <;> rfl

theorem find?_eq (table : Table) (name : String) :
    table.find? name =
      (table.current.get? name).or (table.outer.findSome? (·.get? name)) := by
  unfold find? current outer
  cases h : table.inner with
  | nil => simp
  | cons scope rest =>
      rw [findSome?_get?_cons, List.findSome?_append, List.findSome?_singleton, Option.or_assoc]
      rfl

/-- A new scope hides only what it declares. -/
theorem find?_push_append {table : Table} {symbol : Symbol} {name : String}
    (h : symbol.name ≠ name) : (table.push.append symbol).find? name = table.find? name := by
  simp [find?, push, append, Scope.get?, h]

/-- Taking the innermost scope away leaves the others. -/
theorem pop_of_outer {table : Table} {scope : Scope} {rest : List Scope}
    (h : table.outer = scope :: rest) :
    ∃ popped, table.pop = .ok (table.current, popped) ∧ popped.current = scope ∧
      popped.outer = rest := by
  rcases table with ⟨root, _ | ⟨top, _ | ⟨second, others⟩⟩⟩
  · cases h
  · cases h
    exact ⟨⟨root, []⟩, rfl, rfl, rfl⟩
  · cases h
    exact ⟨⟨root, scope :: others⟩, rfl, rfl, rfl⟩

/-- A name that is not taken is declared behind the others, at the depth of its scope. -/
theorem declare_eq_ok {table declared : Table} {symbol : Symbol} {key : Binding}
    (h : table.declare symbol = .ok (key, declared)) :
    table.current.contains symbol.name = false ∧
      declared = table.append { symbol with depth := table.depth } := by
  unfold declare at h
  split at h
  · cases h
  · rename_i hfree
    cases h
    exact ⟨by simpa using hfree, rfl⟩

/-! ### Growth -/

variable {r : Symbol → Symbol → Prop}

theorem forall₂_outer_trans (hr : Symbol.IsChange r) {a b c : List Scope}
    (hab : List.Forall₂ (List.Forall₂ r) a b) (hbc : List.Forall₂ (List.Forall₂ r) b c) :
    List.Forall₂ (List.Forall₂ r) a c := by
  induction hab generalizing c with
  | nil => exact hbc
  | cons hhead _ ih =>
      cases hbc with
      | cons hhead' htail => exact .cons (Scope.forall₂_trans hr hhead hhead') (ih htail)

theorem updateFirst_eq_none {f : Symbol → Symbol} {name : String} {scopes : List Scope}
    (h : updateFirst name f scopes = none) : scopes.findSome? (·.get? name) = none := by
  induction scopes with
  | nil => rfl
  | cons scope rest ih =>
      rw [updateFirst, Scope.contains_eq_isSome] at h
      rw [findSome?_get?_cons]
      cases hget : scope.get? name with
      | some symbol => simp [hget] at h
      | none => simpa [hget] using ih (by simpa [hget] using h)

/-- The scope that is updated is the first one in which the name is found. -/
theorem updateFirst_eq_some {f : Symbol → Symbol} {name : String} {scopes updated : List Scope}
    (h : updateFirst name f scopes = some updated) :
    ∃ before scope after symbol, scopes = before ++ scope :: after ∧
      before.findSome? (·.get? name) = none ∧ scope.get? name = some symbol ∧
        updated = before ++ scope.update name f :: after := by
  induction scopes generalizing updated with
  | nil => cases h
  | cons scope rest ih =>
      rw [updateFirst, Scope.contains_eq_isSome] at h
      cases hget : scope.get? name with
      | some symbol =>
          rw [hget] at h
          cases h
          exact ⟨[], scope, rest, symbol, rfl, rfl, hget, rfl⟩
      | none =>
          rw [hget] at h
          obtain ⟨others, hothers, rfl⟩ := Option.map_eq_some_iff.1 h
          obtain ⟨before, found, after, symbol, rfl, hbefore, hfound, rfl⟩ := ih hothers
          refine ⟨scope :: before, found, after, symbol, rfl, ?_, hfound, rfl⟩
          rw [findSome?_get?_cons, hget, hbefore]
          rfl

/-- An update changes what is found under the name, and nothing else is found instead. -/
theorem find?_update {f : Symbol → Symbol} (hf : ∀ a, (f a).name = a.name) (table : Table)
    (name : String) : (table.update name f).find? name = (table.find? name).map f := by
  unfold Table.update find?
  split
  · rename_i inner hupdate
    obtain ⟨before, scope, after, symbol, hinner, hbefore, hget, rfl⟩ := updateFirst_eq_some hupdate
    simp [hinner, List.findSome?_append, hbefore, Scope.get?_update hf, hget]
  · rename_i hupdate
    simp [updateFirst_eq_none hupdate, Scope.get?_update hf]

theorem rel_or {a a' b b' : Option Symbol} (ha : Option.Rel r a a') (hb : Option.Rel r b b') :
    Option.Rel r (a.or b) (a'.or b') := by
  cases ha with
  | none => exact hb
  | some h => exact .some h

theorem exists_of_rel_some {symbol : Symbol} {found : Option Symbol}
    (h : Option.Rel r (some symbol) found) : ∃ changed, found = some changed ∧ r symbol changed := by
  cases h with
  | some h => exact ⟨_, rfl, h⟩

theorem findSome?_changed (hr : Symbol.IsChange r) {before after : List Scope}
    (h : List.Forall₂ (List.Forall₂ r) before after) (name : String) :
    Option.Rel r (before.findSome? (·.get? name)) (after.findSome? (·.get? name)) := by
  induction h with
  | nil => exact .none
  | cons hscope _ ih =>
      rw [findSome?_get?_cons, findSome?_get?_cons]
      exact rel_or (Scope.get?_changed hr hscope name) ih

/-- `after` has the scopes of `before` with their symbols changed by `r`, and in the innermost one up
to `added` symbols more, which are declared at its depth. -/
structure Grown (r : Symbol → Symbol → Prop) (added : Nat) (before after : Table) : Prop where
  current : ∃ kept new, after.current = kept ++ new ∧ new.length ≤ added ∧
    (∀ symbol ∈ new, symbol.depth = before.depth) ∧ List.Forall₂ r before.current kept
  outer : List.Forall₂ (List.Forall₂ r) before.outer after.outer

namespace Grown

theorem depth_eq {added : Nat} {before after : Table} (h : Grown r added before after) :
    after.depth = before.depth := by
  rw [depth_eq_length_outer, depth_eq_length_outer, h.outer.length_eq]

theorem refl (hr : Symbol.IsChange r) (table : Table) : Grown r 0 table table where
  current := ⟨table.current, [], by simp, by simp, by simp, Scope.forall₂_refl hr _⟩
  outer := List.forall₂_same.2 fun scope _ => Scope.forall₂_refl hr scope

theorem forall₂_depth {depth : Nat} {before after : List Symbol} (hr : Symbol.IsChange r)
    (h : List.Forall₂ r before after) (hdepth : ∀ symbol ∈ before, symbol.depth = depth) :
    ∀ symbol ∈ after, symbol.depth = depth := by
  induction h with
  | nil => simp
  | cons hhead _ ih =>
      obtain ⟨hfirst, hrest⟩ := List.forall_mem_cons.1 hdepth
      exact List.forall_mem_cons.2 ⟨(hr.revised hhead).depth_eq.trans hfirst, ih hrest⟩

theorem trans (hr : Symbol.IsChange r) {m n : Nat} {a b c : Table} (hab : Grown r m a b)
    (hbc : Grown r n b c) : Grown r (m + n) a c := by
  have hdepth := hab.depth_eq
  obtain ⟨⟨kept, new, hb, hm, hnew, hkept⟩, houter⟩ := hab
  obtain ⟨⟨kept', new', hc, hn, hnew', hkept'⟩, houter'⟩ := hbc
  rw [hb] at hkept'
  rw [hdepth] at hnew'
  -- what `b` had gained has been changed since
  have hfront := List.forall₂_take kept.length hkept'
  have hback := List.forall₂_drop kept.length hkept'
  rw [List.take_left] at hfront
  rw [List.drop_left] at hback
  refine ⟨⟨kept'.take kept.length, kept'.drop kept.length ++ new', ?_, ?_, ?_,
    Scope.forall₂_trans hr hkept hfront⟩, forall₂_outer_trans hr houter houter'⟩
  · rw [hc, ← List.append_assoc, List.take_append_drop]
  · rw [List.length_append, ← hback.length_eq]
    omega
  · exact List.forall_mem_append.2 ⟨forall₂_depth hr hback hnew, hnew'⟩

theorem weaken {m n : Nat} {before after : Table} (hmn : m ≤ n) (h : Grown r m before after) :
    Grown r n before after := by
  obtain ⟨⟨kept, new, hafter, hm, hkept⟩, houter⟩ := h
  exact ⟨⟨kept, new, hafter, Nat.le_trans hm hmn, hkept⟩, houter⟩

theorem mono {r' : Symbol → Symbol → Prop} (hrr : ∀ a b, r a b → r' a b) {added : Nat}
    {before after : Table} (h : Grown r added before after) : Grown r' added before after := by
  obtain ⟨⟨kept, new, hafter, hadded, hnew, hkept⟩, houter⟩ := h
  exact ⟨⟨kept, new, hafter, hadded, hnew, hkept.imp hrr⟩, houter.imp fun _ _ hs => hs.imp hrr⟩

theorem append (hr : Symbol.IsChange r) (table : Table) {symbol : Symbol}
    (hdepth : symbol.depth = table.depth) : Grown r 1 table (table.append symbol) where
  current := ⟨table.current, [symbol], by simp, by simp, by simpa using hdepth,
    Scope.forall₂_refl hr _⟩
  outer := by
    rw [outer_append]
    exact (refl hr table).outer

/-- Without new symbols all scopes have changed alike. -/
theorem forall₂_current {before after : Table} (h : Grown r 0 before after) :
    List.Forall₂ r before.current after.current := by
  obtain ⟨⟨kept, new, hafter, hnew, -, hkept⟩, -⟩ := h
  rw [hafter, List.length_eq_zero_iff.1 (Nat.le_zero.1 hnew), List.append_nil]
  exact hkept

theorem of_forall₂ {before after : Table} (hcurrent : List.Forall₂ r before.current after.current)
    (houter : List.Forall₂ (List.Forall₂ r) before.outer after.outer) : Grown r 0 before after :=
  ⟨⟨after.current, [], by simp, by simp, by simp, hcurrent⟩, houter⟩

theorem of_inner {before after : Table}
    (hinner : List.Forall₂ (List.Forall₂ r) before.inner after.inner)
    (hroot : List.Forall₂ r before.root after.root) : Grown r 0 before after := by
  rcases before with ⟨root, inner⟩
  rcases after with ⟨root', inner'⟩
  cases hinner with
  | nil => exact of_forall₂ hroot .nil
  | cons hscope hrest =>
      exact of_forall₂ hscope (List.rel_append hrest (.cons hroot .nil))

/-- Only the scope in which a name is found changes when it is updated. -/
theorem update_found (hr : Symbol.IsChange r) {f : Symbol → Symbol} {table : Table} {name : String}
    (hf : ∀ symbol scope, table.find? name = some symbol → scope ∈ table.scopes → symbol ∈ scope →
      ∀ a ∈ scope, a.name = name → r a (f a)) : Grown r 0 table (table.update name f) := by
  have hsame (scopes : List Scope) : List.Forall₂ (List.Forall₂ r) scopes scopes :=
    List.forall₂_same.2 fun scope _ => Scope.forall₂_refl hr scope
  unfold Table.update
  unfold find? at hf
  split
  · rename_i inner hupdate
    obtain ⟨before, scope, after, symbol, hinner, hbefore, hget, rfl⟩ := updateFirst_eq_some hupdate
    refine of_inner ?_ (Scope.forall₂_refl hr _)
    rw [hinner]
    refine List.rel_append (hsame before) (.cons (Scope.forall₂_update hr ?_) (hsame after))
    refine hf symbol scope ?_ ?_ (List.mem_of_find?_eq_some hget)
    · simp [hinner, List.findSome?_append, hbefore, hget]
    · simp [scopes, hinner]
  · rename_i hupdate
    refine of_inner (hsame _) (Scope.forall₂_update hr fun a ha hname => ?_)
    rw [updateFirst_eq_none hupdate, Option.none_or] at hf
    obtain ⟨symbol, hget⟩ : ∃ symbol, table.root.get? name = some symbol := by
      rw [← Option.isSome_iff_exists, ← Scope.contains_eq_isSome]
      exact List.any_eq_true.2 ⟨a, ha, by simpa using hname⟩
    exact hf symbol table.root hget (by simp [scopes]) (List.mem_of_find?_eq_some hget) a ha hname

theorem update (hr : Symbol.IsChange r) {f : Symbol → Symbol} (hf : ∀ a, r a (f a))
    (table : Table) (name : String) : Grown r 0 table (table.update name f) :=
  update_found hr fun _ _ _ _ _ a _ _ => hf a

/-- A name is found after a change if and only if it was found before. -/
theorem find?_changed (hr : Symbol.IsChange r) {before after : Table}
    (h : Grown r 0 before after) (name : String) :
    Option.Rel r (before.find? name) (after.find? name) := by
  rw [find?_eq, find?_eq]
  exact rel_or (Scope.get?_changed hr h.forall₂_current name) (findSome?_changed hr h.outer name)

theorem find?_before (hr : Symbol.IsChange r) {before after : Table} {name : String} {symbol : Symbol}
    (h : Grown r 0 before after) (hfind : after.find? name = some symbol) :
    ∃ old, before.find? name = some old ∧ r old symbol := by
  have hrel := h.find?_changed hr name
  rw [hfind] at hrel
  generalize before.find? name = found at hrel
  cases hrel with
  | some h => exact ⟨_, rfl, h⟩

/-- What happens in a scope of its own leaves the scopes around it without new symbols. -/
theorem pop {added : Nat} {before after : Table} (h : Grown r added before.push after) :
    ∃ popped, after.pop = .ok (after.current, popped) ∧ Grown r 0 before popped := by
  have houter := h.outer
  rw [outer_push] at houter
  obtain ⟨scope, rest, hcurrent, hrest, hafter⟩ := List.forall₂_cons_left_iff.1 houter
  obtain ⟨popped, hpop, rfl, rfl⟩ := pop_of_outer hafter
  exact ⟨popped, hpop, of_forall₂ hcurrent hrest⟩

end Grown

/-! ### Scopes by depth -/

variable {added depth : Nat} {table before after : Table}

theorem scopes_push (table : Table) : table.push.scopes = table.scopes ++ [[]] := by
  simp [scopes, push]

theorem length_scopes (table : Table) : table.scopes.length = table.depth + 1 := by
  simp [scopes, Table.depth]

theorem le_depth_of_scope? {scope : Scope} (h : table.scope? depth = some scope) :
    depth ≤ table.depth := by
  have hlt := (List.getElem?_eq_some_iff.1 h).1
  rw [length_scopes] at hlt
  omega

theorem scope?_push (h : depth ≤ table.depth) : table.push.scope? depth = table.scope? depth := by
  rw [scope?, scopes_push, List.getElem?_append_left]
  · rfl
  · rw [length_scopes]
    omega

theorem scope?_depth (table : Table) : table.scope? table.depth = some table.current := by
  rw [scope?, scopes_eq, depth_eq_length_outer]
  simp

/-- The scopes around the innermost one stand at the depths below its own. -/
theorem scope?_eq_outer (h : depth < table.depth) :
    table.scope? depth = table.outer.reverse[depth]? := by
  rw [depth_eq_length_outer] at h
  rw [scope?, scopes_eq, List.reverse_cons, List.getElem?_append_left (by simpa using h)]

theorem Grown.scope? (h : Grown r added before after) (hdepth : depth < before.depth) :
    ∃ scope changed, before.scope? depth = some scope ∧ after.scope? depth = some changed ∧
      List.Forall₂ r scope changed := by
  have hlength : depth < before.outer.reverse.length := by
    rw [List.length_reverse, ← depth_eq_length_outer]
    exact hdepth
  have houter := List.rel_reverse h.outer
  have hlength' : depth < after.outer.reverse.length := by
    rw [← houter.length_eq]
    exact hlength
  refine ⟨before.outer.reverse[depth], after.outer.reverse[depth], ?_, ?_, ?_⟩
  · rw [scope?_eq_outer hdepth]
    exact List.getElem?_eq_getElem hlength
  · rw [scope?_eq_outer (h.depth_eq ▸ hdepth)]
    exact List.getElem?_eq_getElem hlength'
  · exact houter.get hlength hlength'

/-- What a scope has become: its symbols have changed, and it may have gained symbols. -/
theorem Grown.scope?_le (h : Grown r added before after) (hdepth : depth ≤ before.depth) :
    ∃ scope kept new, before.scope? depth = some scope ∧ after.scope? depth = some (kept ++ new) ∧
      (∀ symbol ∈ new, symbol.depth = depth) ∧ List.Forall₂ r scope kept := by
  rcases Nat.lt_or_eq_of_le hdepth with hlt | rfl
  · obtain ⟨scope, changed, hscope, hchanged, hrel⟩ := h.scope? hlt
    exact ⟨scope, changed, [], hscope, by rw [List.append_nil]; exact hchanged, by simp, hrel⟩
  · obtain ⟨kept, new, hcurrent, -, hnew, hkept⟩ := h.current
    refine ⟨before.current, kept, new, scope?_depth before, ?_, hnew, hkept⟩
    rw [← hcurrent, ← h.depth_eq]
    exact scope?_depth after

/-- Each symbol stands in the scope at its depth. -/
def Aligned (table : Table) : Prop :=
  ∀ depth scope, table.scope? depth = some scope → ∀ symbol ∈ scope, symbol.depth = depth

theorem Aligned.push (h : table.Aligned) : table.push.Aligned := by
  intro depth scope hscope symbol hsymbol
  have hle := le_depth_of_scope? hscope
  rw [depth_push] at hle
  rcases Nat.lt_or_eq_of_le hle with hlt | rfl
  · rw [scope?_push (Nat.le_of_lt_succ hlt)] at hscope
    exact h depth scope hscope symbol hsymbol
  · rw [← depth_push, scope?_depth, current_push] at hscope
    cases hscope
    cases hsymbol

theorem Aligned.grown (hr : Symbol.IsChange r) (h : before.Aligned)
    (hgrown : Grown r added before after) : after.Aligned := by
  intro depth scope hscope symbol hsymbol
  have hle := le_depth_of_scope? hscope
  rw [hgrown.depth_eq] at hle
  obtain ⟨old, kept, new, hold, hafter, hnew, hkept⟩ := hgrown.scope?_le hle
  rw [hafter] at hscope
  cases hscope
  rcases List.mem_append.1 hsymbol with hmem | hmem
  · exact Grown.forall₂_depth hr hkept (h depth old hold) symbol hmem
  · exact hnew symbol hmem

/-- A symbol is found in the scope at its depth. -/
theorem Aligned.find?_eq_some (h : table.Aligned) {name : String} {symbol : Symbol}
    (hfind : table.find? name = some symbol) :
    ∃ scope, table.scope? symbol.depth = some scope ∧ scope.get? name = some symbol := by
  rw [find?_eq, ← findSome?_get?_cons] at hfind
  obtain ⟨scope, hmem, hget⟩ := List.exists_of_findSome?_eq_some hfind
  have hscopes : scope ∈ table.scopes := by
    rw [scopes_eq, List.mem_reverse]
    exact hmem
  obtain ⟨depth, hdepth⟩ := List.mem_iff_getElem?.1 hscopes
  have hsymbol : symbol.depth = depth := h depth scope hdepth symbol (List.mem_of_find?_eq_some hget)
  exact ⟨scope, by rw [hsymbol]; exact hdepth, hget⟩

/-- An update touches symbols of one key only. -/
theorem Aligned.update (hr : Symbol.IsChange r) (h : table.Aligned) {f : Symbol → Symbol}
    {name : String} {symbol : Symbol} (hfind : table.find? name = some symbol)
    (hf : ∀ a, a.key = symbol.key → r a (f a)) : Grown r 0 table (table.update name f) := by
  refine Grown.update_found hr fun found scope hfound hscope hmem a ha hname => hf a ?_
  obtain rfl : symbol = found := Option.some.inj (hfind.symm.trans hfound)
  obtain ⟨depth, hdepth⟩ := List.mem_iff_getElem?.1 hscope
  obtain ⟨scope', hscope', hget⟩ := h.find?_eq_some hfind
  have hsymbol : symbol.name = name := by simpa using List.find?_some hget
  simp [Symbol.key, hname, hsymbol, h depth scope hdepth a ha, h depth scope hdepth symbol hmem]

/-! ### All symbols -/

/-- Every symbol in every scope has the property `p`. -/
def All (p : Symbol → Prop) (table : Table) : Prop :=
  ∀ scope ∈ table.scopes, ∀ symbol ∈ scope, p symbol

variable {p q : Symbol → Prop} {name : String} {symbol : Symbol} {f : Symbol → Symbol}

theorem all_iff : table.All p ↔
    (∀ symbol ∈ table.current, p symbol) ∧ ∀ scope ∈ table.outer, ∀ symbol ∈ scope, p symbol := by
  simp only [All, scopes_eq, List.mem_reverse, List.forall_mem_cons]

theorem all_iff_root : table.All p ↔
    (∀ symbol ∈ table.root, p symbol) ∧ ∀ scope ∈ table.inner, ∀ symbol ∈ scope, p symbol := by
  simp [All, scopes]

theorem mem_of_find? (h : table.find? name = some symbol) :
    ∃ scope ∈ table.scopes, symbol ∈ scope ∧ symbol.name = name := by
  rw [find?_eq, ← findSome?_get?_cons] at h
  obtain ⟨scope, hscope, hget⟩ := List.exists_of_findSome?_eq_some h
  refine ⟨scope, ?_, List.mem_of_find?_eq_some hget, by simpa using List.find?_some hget⟩
  rw [scopes_eq, List.mem_reverse]
  exact hscope

theorem forall_mem_of_forall₂ {α : Type} {r : α → α → Prop} {p q : α → Prop} {xs ys : List α}
    (h : List.Forall₂ r xs ys) (hr : ∀ a b, r a b → p a → q b) (hxs : ∀ a ∈ xs, p a) :
    ∀ b ∈ ys, q b := by
  induction h with
  | nil => exact List.forall_mem_nil _
  | cons hab _ ih =>
      obtain ⟨ha, hrest⟩ := List.forall_mem_cons.1 hxs
      exact List.forall_mem_cons.2 ⟨hr _ _ hab ha, ih hrest⟩

namespace All

theorem mono (h : table.All p) (hpq : ∀ symbol, p symbol → q symbol) : table.All q :=
  fun scope hscope symbol hsymbol => hpq symbol (h scope hscope symbol hsymbol)

theorem find? (h : table.All p) (hfind : table.find? name = some symbol) : p symbol := by
  obtain ⟨scope, hscope, hsymbol, -⟩ := mem_of_find? hfind
  exact h scope hscope symbol hsymbol

theorem push (h : table.All p) : table.push.All p := by
  rw [all_iff] at h ⊢
  rw [current_push, outer_push]
  exact ⟨by simp, List.forall_mem_cons.2 h⟩

theorem append (h : table.All p) (hsymbol : p symbol) : (table.append symbol).All p := by
  rw [all_iff] at h ⊢
  rw [current_append, outer_append]
  exact ⟨List.forall_mem_append.2 ⟨h.1, List.forall_mem_singleton.2 hsymbol⟩, h.2⟩

theorem declare {declared : Table} {key : Binding} (h : table.All p)
    (hdeclare : table.declare symbol = .ok (key, declared))
    (hsymbol : p { symbol with depth := table.depth }) : declared.All p := by
  obtain ⟨-, rfl⟩ := declare_eq_ok hdeclare
  exact h.append hsymbol

theorem pop {scope : Scope} {popped : Table} (h : table.All p)
    (hpop : table.pop = .ok (scope, popped)) : popped.All p := by
  rcases table with ⟨root, _ | ⟨top, rest⟩⟩
  · cases hpop
  · cases hpop
    rw [all_iff_root] at h ⊢
    exact ⟨h.1, fun other hother => h.2 other (List.mem_cons_of_mem _ hother)⟩

theorem update_scope {scope : Scope} (hf : ∀ symbol, p symbol → p (f symbol))
    (h : ∀ symbol ∈ scope, p symbol) : ∀ symbol ∈ scope.update name f, p symbol := by
  intro symbol hsymbol
  obtain ⟨old, hold, rfl⟩ := List.mem_map.1 hsymbol
  split
  · exact hf old (h old hold)
  · exact h old hold

theorem updateFirst {scopes updated : List Scope} (hf : ∀ symbol, p symbol → p (f symbol))
    (h : ∀ scope ∈ scopes, ∀ symbol ∈ scope, p symbol)
    (hupdate : Table.updateFirst name f scopes = some updated) :
    ∀ scope ∈ updated, ∀ symbol ∈ scope, p symbol := by
  induction scopes generalizing updated with
  | nil => cases hupdate
  | cons scope rest ih =>
      obtain ⟨hscope, hrest⟩ := List.forall_mem_cons.1 h
      rw [Table.updateFirst] at hupdate
      split at hupdate
      · cases hupdate
        exact List.forall_mem_cons.2 ⟨update_scope hf hscope, hrest⟩
      · obtain ⟨others, hothers, rfl⟩ := Option.map_eq_some_iff.1 hupdate
        exact List.forall_mem_cons.2 ⟨hscope, ih hrest hothers⟩

theorem update (h : table.All p) (hf : ∀ symbol, p symbol → p (f symbol)) :
    (table.update name f).All p := by
  rw [all_iff_root] at h ⊢
  unfold Table.update
  split
  · rename_i inner hupdate
    exact ⟨h.1, updateFirst hf h.2 hupdate⟩
  · exact ⟨update_scope hf h.1, h.2⟩

/-- What a change of symbols keeps is true of all of them afterwards, if none is new. -/
theorem grown {r : Symbol → Symbol → Prop} {before after : Table} (hr : ∀ {a b}, r a b → p a → p b)
    (h : before.All p) (hgrown : Grown r 0 before after) : after.All p := by
  rw [all_iff] at h ⊢
  have hscope : ∀ old new : Scope, List.Forall₂ r old new → (∀ symbol ∈ old, p symbol) →
      ∀ symbol ∈ new, p symbol := fun _ _ hrel => forall_mem_of_forall₂ hrel fun _ _ => hr
  exact ⟨hscope _ _ hgrown.forall₂_current h.1, forall_mem_of_forall₂ hgrown.outer hscope h.2⟩

end All

end Table

end Custody
