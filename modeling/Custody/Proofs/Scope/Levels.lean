import Custody.Proofs.Scope.Calls
import Custody.Scope.Levels

/-! The stored table. Its levels keep a map and an order that know nothing of each other, and calls
change both. Whatever calls are made on a new one, the order of a level lists the keys of its map once
each, and the stored table answers every call as the plain table of scopes does. -/

namespace Custody

namespace Level

open Scope

variable {level : Level} {scope : Scope} {symbol : Symbol} {name : String}

/-- The level keeps the symbols of a scope: the order names them in turn, and the map has under each
name what is found under it. -/
structure Lists (level : Level) (scope : Scope) : Prop where
  order : level.order = scope.names
  symbols : ∀ name, level.symbols name = scope.get? name

namespace Lists

theorem empty : Lists {} [] :=
  ⟨rfl, fun _ => rfl⟩

/-- A scope is kept in one way only. -/
theorem unique {other : Level} (h : level.Lists scope) (h' : other.Lists scope) : level = other := by
  obtain ⟨symbols, order⟩ := level
  obtain ⟨symbols', order'⟩ := other
  have hsymbols : symbols = symbols' := funext fun name => (h.symbols name).trans (h'.symbols name).symm
  have horder : order = order' := h.order.trans h'.order.symm
  rw [hsymbols, horder]

theorem contains_eq (h : level.Lists scope) (name : String) :
    level.contains name = scope.contains name := by
  rw [Level.contains, h.symbols, contains_eq_isSome]

theorem mem_order_iff (h : level.Lists scope) :
    name ∈ level.order ↔ ∃ symbol, level.symbols name = some symbol := by
  rw [h.order, mem_names_iff, h.symbols]

theorem listed_eq (h : level.Lists scope) (hdistinct : scope.names.Nodup) : level.listed = scope := by
  rw [listed, h.order, funext h.symbols, filterMap_get?_names hdistinct]

/-- A new name goes to the end of the order. -/
theorem insert (h : level.Lists scope) (hnew : symbol.name ∉ scope.names) :
    (level.insert symbol).Lists (scope ++ [symbol]) where
  order := by simp [Level.insert, h.order, names]
  symbols name := by
    simp only [Level.insert, Level.set, h.symbols, get?, List.find?_append]
    by_cases hname : name = symbol.name
    · subst hname
      have hnone : scope.find? (·.name == symbol.name) = none := notMem_names_iff.1 hnew
      simp [hnone]
    · simp [hname, Ne.symm hname]

theorem foldl_insert (h : level.Lists scope) {symbols : List Symbol}
    (hdistinct : Scope.names (scope ++ symbols) |>.Nodup) :
    (symbols.foldl Level.insert level).Lists (scope ++ symbols) := by
  induction symbols generalizing level scope with
  | nil => simpa using h
  | cons symbol symbols ih =>
      have hnew : symbol.name ∉ scope.names := by
        intro hmem
        rw [names, List.map_append, List.map_cons] at hdistinct
        exact (List.nodup_append.1 hdistinct).2.2 _ hmem _ List.mem_cons_self rfl
      rw [List.foldl_cons, List.append_cons]
      rw [List.append_cons] at hdistinct
      exact ih (h.insert hnew) hdistinct

/-- Changing a symbol leaves the order alone. -/
theorem set {f : Symbol → Symbol} (h : level.Lists scope) (hf : ∀ a, (f a).name = a.name)
    (hsymbol : level.symbols name = some symbol) :
    (level.set name (f symbol)).Lists (scope.update name f) where
  order := by
    have hnames : (scope.update name f).names = scope.names := by
      simp only [names, Scope.update, List.map_map]
      apply List.map_congr_left
      intro other _
      simp only [Function.comp_apply]
      split
      · exact hf other
      · rfl
    rw [hnames, ← h.order]
    rfl
  symbols other := by
    by_cases hother : other = name
    · subst hother
      rw [get?_update hf, ← h.symbols, hsymbol]
      simp [Level.set]
    · rw [get?_update_of_ne hf hother, ← h.symbols]
      simp [Level.set, hother]

end Lists

end Level

namespace Levels

open Scope

variable {levels : Levels} {table : Table} {name : String} {symbol : Symbol} {depth : Nat}

/-- The levels keep the scopes of a table, one each. -/
structure Stores (levels : Levels) (table : Table) : Prop where
  levels : List.Forall₂ Level.Lists levels.stack (table.inner ++ [table.root])
  regular : table.Regular

namespace Stores

/-- A table is stored in one way only. -/
theorem unique {other : Levels} (h : levels.Stores table) (h' : other.Stores table) :
    levels = other := by
  obtain ⟨stack⟩ := levels
  obtain ⟨stack'⟩ := other
  exact congrArg Levels.mk
    (List.left_unique_forall₂' (fun _ _ _ h h' => h.unique h') h.levels h'.levels)

theorem depth_eq (h : levels.Stores table) : levels.depth = table.depth := by
  rw [Levels.depth, h.levels.length_eq, List.length_append, Table.depth]
  rfl

/-- The stack is the innermost level on top of others. -/
theorem stack_eq (h : levels.Stores table) :
    ∃ level outer, levels.stack = level :: outer ∧ level.Lists table.current ∧
      List.Forall₂ Level.Lists outer table.outer := by
  obtain ⟨root, _ | ⟨scope, inner⟩⟩ := table
  · obtain ⟨level, outer, hlevel, houter, hstack⟩ := List.forall₂_cons_right_iff.1 h.levels
    exact ⟨level, outer, hstack, hlevel, houter⟩
  · obtain ⟨level, outer, hlevel, houter, hstack⟩ := List.forall₂_cons_right_iff.1 h.levels
    exact ⟨level, outer, hstack, hlevel, houter⟩

theorem of_stack {level : Level} {outer : List Level} (hlevel : level.Lists table.current)
    (houter : List.Forall₂ Level.Lists outer table.outer) (hregular : table.Regular) :
    Stores ⟨level :: outer⟩ table := by
  refine ⟨?_, hregular⟩
  obtain ⟨root, _ | ⟨scope, inner⟩⟩ := table
  · exact .cons hlevel houter
  · exact .cons hlevel houter

theorem push (h : levels.Stores table) : levels.push.2.Stores table.push :=
  ⟨.cons .empty h.levels, h.regular.push⟩

/-- The last level stays, and the others are taken away like scopes. -/
theorem pop (h : levels.Stores table) :
    table.pop = .error .underflow ∧ levels.pop = (.error .underflow, levels) ∨
    ∃ scope popped level rest, table.pop = .ok (scope, popped) ∧ levels.pop = (.ok level, rest) ∧
      level.Lists scope ∧ scope.names.Nodup ∧ rest.Stores popped := by
  obtain ⟨stack⟩ := levels
  obtain ⟨root, _ | ⟨scope, inner⟩⟩ := table
  · obtain ⟨level, outer, -, houter, rfl⟩ := List.forall₂_cons_right_iff.1 h.levels
    obtain rfl := List.forall₂_nil_right_iff.1 houter
    exact .inl ⟨rfl, rfl⟩
  · obtain ⟨level, outer, hlevel, houter, rfl⟩ := List.forall₂_cons_right_iff.1 h.levels
    have hlength : ¬ (level :: outer).length ≤ 1 := by
      rw [List.length_cons, houter.length_eq]
      simp
    have hdistinct : scope.names.Nodup := h.regular.distinct scope (by simp [Table.scopes])
    refine .inr ⟨scope, _, level, ⟨outer⟩, rfl, ?_, hlevel, hdistinct, houter, h.regular.pop rfl⟩
    rw [Levels.pop, if_neg hlength]

theorem declare (h : levels.Stores table) (symbol : Symbol) :
    (levels.declare symbol).1 = (table.declare symbol).map (·.1) ∧
      (levels.declare symbol).2.Stores (table.perform (.declare symbol)) ∧
      (symbol.name ∈ table.current.names → (levels.declare symbol).2 = levels) := by
  obtain ⟨level, outer, hstack, hlevel, houter⟩ := h.stack_eq
  rw [Levels.declare, hstack, Table.declare]
  simp only [hlevel.contains_eq]
  by_cases htaken : symbol.name ∈ table.current.names
  · rw [Table.perform_declare_of_taken htaken, if_pos (contains_iff.2 htaken),
      if_pos (contains_iff.2 htaken)]
    exact ⟨rfl, h, fun _ => rfl⟩
  · have hfree := contains_eq_false_iff.2 htaken
    rw [Table.perform_declare_of_new htaken]
    simp only [hfree, Bool.false_eq_true, if_false, h.depth_eq]
    refine ⟨rfl, of_stack ?_ ?_ (h.regular.append htaken rfl), fun hmem => absurd hmem htaken⟩
    · rw [Table.current_append]
      exact hlevel.insert htaken
    · rw [Table.outer_append]
      exact houter

theorem findSome?_symbols {stack : List Level} {scopes : List Scope}
    (h : List.Forall₂ Level.Lists stack scopes) (name : String) :
    stack.findSome? (·.symbols name) = scopes.findSome? (·.get? name) := by
  induction h with
  | nil => rfl
  | cons hlevel _ ih => rw [List.findSome?_cons, List.findSome?_cons, hlevel.symbols, ih]

theorem lookup_eq (h : levels.Stores table) (name : String) :
    levels.lookup name = table.lookup name := by
  have hfound : levels.stack.findSome? (·.symbols name) = table.find? name := by
    rw [findSome?_symbols h.levels, List.findSome?_append, Table.find?]
    simp
  unfold lookup Table.lookup
  cases hfind : table.find? name with
  | none => simp only [hfound, hfind]
  | some symbol => simp only [hfound, hfind]

/-- The levels are changed where the scopes are. -/
theorem changeFirst {stack : List Level} {scopes : List Scope} {f : Symbol → Symbol}
    (hf : ∀ a, (f a).name = a.name) (h : List.Forall₂ Level.Lists stack scopes) (name : String) :
    Levels.changeFirst name f stack = none ∧ Table.updateFirst name f scopes = none ∨
    ∃ changed updated, Levels.changeFirst name f stack = some changed ∧
      Table.updateFirst name f scopes = some updated ∧ List.Forall₂ Level.Lists changed updated := by
  induction h with
  | nil => exact .inl ⟨rfl, rfl⟩
  | @cons level scope outer scopes hlevel houter ih =>
      rw [Levels.changeFirst, Table.updateFirst, contains_eq_isSome, ← hlevel.symbols]
      cases hsymbol : level.symbols name with
      | some symbol => exact .inr ⟨_, _, rfl, rfl, .cons (hlevel.set hf hsymbol) houter⟩
      | none =>
          rcases ih with ⟨hnone, hnone'⟩ | ⟨changed, updated, hchanged, hupdated, hrest⟩
          · exact .inl ⟨by rw [hnone]; rfl, by rw [hnone']; rfl⟩
          · exact .inr ⟨level :: changed, scope :: updated, by rw [hchanged]; rfl,
              by rw [hupdated]; rfl, .cons hlevel hrest⟩

/-- In a table the scopes are updated from the innermost to the root. -/
theorem updateFirst_scopes (name : String) (f : Symbol → Symbol) (table : Table) :
    Table.updateFirst name f (table.inner ++ [table.root]) =
      if (table.find? name).isSome then
        some ((table.update name f).inner ++ [(table.update name f).root])
      else none := by
  have happend : ∀ scopes : List Scope, Table.updateFirst name f (scopes ++ [table.root]) =
      ((Table.updateFirst name f scopes).map (· ++ [table.root])).or
        (if table.root.contains name then some (scopes ++ [table.root.update name f]) else none) := by
    intro scopes
    induction scopes with
    | nil =>
        rw [List.nil_append, Table.updateFirst, Table.updateFirst, Table.updateFirst]
        simp
    | cons scope scopes ih =>
        rw [List.cons_append, Table.updateFirst, Table.updateFirst, ih]
        by_cases hscope : scope.contains name = true
        · simp [hscope]
        · simp only [hscope, if_false, Bool.false_eq_true]
          cases Table.updateFirst name f scopes <;> cases table.root.contains name <;> simp
  rw [happend, Table.find?, Table.update]
  cases hinner : Table.updateFirst name f table.inner with
  | none =>
      rw [Table.updateFirst_eq_none hinner, Option.none_or, contains_eq_isSome]
      rfl
  | some updated =>
      obtain ⟨before, scope, after, symbol, hscopes, hbefore, hget, -⟩ :=
        Table.updateFirst_eq_some hinner
      have hfound : table.inner.findSome? (·.get? name) = some symbol := by
        rw [hscopes, List.findSome?_append, hbefore, Table.findSome?_get?_cons, hget]
        rfl
      rw [hfound]
      rfl

/-- What is looked up is changed; if nothing is found, nothing changes. -/
theorem change (h : levels.Stores table) {f : Symbol → Symbol} (hf : ∀ a, (f a).name = a.name)
    (hdepth : ∀ a, (f a).depth = a.depth) (name : String) :
    (levels.change name f).1 = (table.lookup name).map (fun _ => ()) ∧
      (levels.change name f).2.Stores
        (if (table.find? name).isSome then table.update name f else table) := by
  have hupdate := updateFirst_scopes name f table
  rw [Levels.change, Table.lookup]
  rcases changeFirst hf h.levels name with ⟨hnone, hnone'⟩ |
    ⟨changed, updated, hchanged, hupdated, hrest⟩
  · rw [hnone'] at hupdate
    cases hfind : table.find? name with
    | none =>
        rw [hnone]
        exact ⟨rfl, h⟩
    | some symbol =>
        rw [hfind] at hupdate
        cases hupdate
  · rw [hupdated] at hupdate
    cases hfind : table.find? name with
    | none =>
        rw [hfind] at hupdate
        cases hupdate
    | some symbol =>
        rw [hfind] at hupdate
        rw [hchanged]
        refine ⟨rfl, ?_, h.regular.update hf hdepth name⟩
        exact Option.some.inj hupdate ▸ hrest

theorem initial : Levels.initial.Stores Table.initial := by
  have hregular := Table.Regular.initial
  have hroot : (Table.builtins.foldl Level.insert {}).Lists Table.builtins :=
    Level.Lists.empty.foldl_insert (hregular.distinct _ List.mem_cons_self)
  exact ⟨.cons hroot .nil, hregular⟩

end Stores

/-! ### Calls -/

/-- The stored table after a call, whether it is refused or not. -/
def perform (levels : Levels) : Table.Call → Levels
  | .push => levels.push.2
  | .pop => levels.pop.2
  | .declare symbol => (levels.declare symbol).2
  | .setState name state => (levels.setState name state).2
  | .setType name ty => (levels.setType name ty).2
  | .setFields name fields => (levels.setFields name fields).2

def performAll (levels : Levels) (calls : List Table.Call) : Levels :=
  calls.foldl perform levels

theorem update_of_notFound {f : Symbol → Symbol} (h : table.find? name = none) :
    table.update name f = table := by
  rw [Table.find?, Option.or_eq_none_iff] at h
  obtain ⟨root, inner⟩ := table
  obtain ⟨hinner, hroot⟩ := h
  have hupdate : root.update name f = root := by
    rw [Scope.update]
    conv_rhs => rw [← List.map_id root]
    apply List.map_congr_left
    intro symbol hsymbol
    rw [if_neg fun hname => by simpa [hname] using List.find?_eq_none.1 hroot symbol hsymbol]
    rfl
  rw [Table.update]
  cases hfirst : Table.updateFirst name f inner with
  | none => rw [hupdate]
  | some updated =>
      obtain ⟨before, scope, after, symbol, rfl, hbefore, hget, -⟩ :=
        Table.updateFirst_eq_some hfirst
      rw [List.findSome?_append, hbefore, Table.findSome?_get?_cons, hget] at hinner
      cases hinner

/-- One call keeps the table stored. -/
theorem Stores.perform (h : levels.Stores table) (call : Table.Call) :
    (levels.perform call).Stores (table.perform call) := by
  cases call with
  | push => exact h.push
  | pop =>
      rw [Levels.perform, Table.perform]
      rcases h.pop with ⟨htable, hlevels⟩ | ⟨scope, popped, level, rest, htable, hlevels, -, -, hrest⟩
      · rw [htable, hlevels]
        exact h
      · rw [htable, hlevels]
        exact hrest
  | declare symbol => exact (h.declare symbol).2.1
  | setState name state =>
      rw [Table.perform, Table.setState, Table.perform_set]
      exact (h.change (Symbol.name_setState state) (Symbol.depth_setState state) name).2
  | setType name ty =>
      rw [Table.perform, Table.setType, Table.perform_set]
      exact (h.change (f := fun symbol => { symbol with ty }) (fun _ => rfl) (fun _ => rfl) name).2
  | setFields name fields =>
      have hchange := (h.change (Symbol.name_setFields fields)
        (fun a => (Symbol.revised_setFields fields a).depth_eq) name).2
      rw [Table.perform]
      cases hfind : table.find? name with
      | none =>
          rw [hfind] at hchange
          rw [update_of_notFound hfind]
          exact hchange
      | some symbol =>
          rw [hfind] at hchange
          exact hchange

theorem Stores.performAll (h : levels.Stores table) (calls : List Table.Call) :
    (levels.performAll calls).Stores (table.performAll calls) := by
  induction calls generalizing levels table with
  | nil => exact h
  | cons call calls ih => exact ih (h.perform call)

/-! ### The representation -/

theorem getElem?_forall₂ {α β : Type} {r : α → β → Prop} {xs : List α} {ys : List β}
    (h : List.Forall₂ r xs ys) (index : Nat) :
    xs[index]? = none ∧ ys[index]? = none ∨
      ∃ a b, xs[index]? = some a ∧ ys[index]? = some b ∧ r a b := by
  induction h generalizing index with
  | nil => exact .inl ⟨rfl, rfl⟩
  | cons hab _ ih =>
      cases index with
      | zero => exact .inr ⟨_, _, rfl, rfl, hab⟩
      | succ index => simpa using ih index

namespace Stores

variable {level : Level} {scope : Scope}

theorem level?_cases (h : levels.Stores table) (depth : Nat) :
    levels.level? depth = none ∧ table.scope? depth = none ∨
      ∃ level scope, levels.level? depth = some level ∧ table.scope? depth = some scope ∧
        level.Lists scope := by
  have hreverse := List.rel_reverse h.levels
  rw [List.reverse_append] at hreverse
  exact getElem?_forall₂ hreverse depth

theorem scope?_of_level? (h : levels.Stores table) (hlevel : levels.level? depth = some level) :
    ∃ scope, table.scope? depth = some scope ∧ level.Lists scope := by
  rcases h.level?_cases depth with ⟨hnone, -⟩ | ⟨found, scope, hfound, hscope, hlists⟩
  · rw [hnone] at hlevel
    cases hlevel
  · obtain rfl := Option.some.inj (hfound.symm.trans hlevel)
    exact ⟨scope, hscope, hlists⟩

theorem level?_of_scope? (h : levels.Stores table) (hscope : table.scope? depth = some scope) :
    ∃ level, levels.level? depth = some level ∧ level.Lists scope := by
  rcases h.level?_cases depth with ⟨-, hnone⟩ | ⟨level, found, hlevel, hfound, hlists⟩
  · rw [hnone] at hscope
    cases hscope
  · obtain rfl := Option.some.inj (hfound.symm.trans hscope)
    exact ⟨level, hlevel, hlists⟩

end Stores

/-- The data of a stored table are in order: there is a level, and in each level the order names the
keys of the map once each, and what the map has under a name has that name and the depth of the
level. -/
structure Regular (levels : Levels) : Prop where
  bottom : levels.stack ≠ []
  distinct : ∀ depth level, levels.level? depth = some level → level.order.Nodup
  keys : ∀ depth level, levels.level? depth = some level →
    ∀ name, name ∈ level.order ↔ ∃ symbol, level.symbols name = some symbol
  named : ∀ depth level, levels.level? depth = some level →
    ∀ name symbol, level.symbols name = some symbol → symbol.name = name ∧ symbol.depth = depth

/-- The stored table gives the answers that the table of scopes gives. -/
structure Answers (levels : Levels) (table : Table) : Prop where
  depth : levels.depth = table.depth
  level? : ∀ depth, (levels.level? depth).map Level.listed = table.scope? depth
  push : levels.push.1 = table.push.depth
  pop : levels.pop.1.map Level.listed = table.pop.map (·.1)
  declare : ∀ symbol, (levels.declare symbol).1 = (table.declare symbol).map (·.1)
  lookup : ∀ name, levels.lookup name = table.lookup name
  setState : ∀ name state,
    (levels.setState name state).1 = (table.setState name state).map fun _ => ()
  setType : ∀ name ty, (levels.setType name ty).1 = (table.setType name ty).map fun _ => ()

namespace Stores

theorem toRegular (h : levels.Stores table) : levels.Regular where
  bottom hempty := by
    obtain ⟨level, outer, hstack, -⟩ := h.stack_eq
    rw [hempty] at hstack
    cases hstack
  distinct depth level hlevel := by
    obtain ⟨scope, hscope, hlists⟩ := h.scope?_of_level? hlevel
    rw [hlists.order]
    exact h.regular.distinct scope (Table.mem_scopes_iff.2 ⟨depth, hscope⟩)
  keys depth level hlevel name := by
    obtain ⟨scope, -, hlists⟩ := h.scope?_of_level? hlevel
    exact hlists.mem_order_iff
  named depth level hlevel name symbol hsymbol := by
    obtain ⟨scope, hscope, hlists⟩ := h.scope?_of_level? hlevel
    have hdistinct := h.regular.distinct scope (Table.mem_scopes_iff.2 ⟨depth, hscope⟩)
    rw [hlists.symbols] at hsymbol
    obtain ⟨hmem, hname⟩ := (get?_eq_some_iff hdistinct).1 hsymbol
    exact ⟨hname, h.regular.aligned depth scope hscope symbol hmem⟩

theorem map_set (table : Table) (name : String) (f : Symbol → Symbol) :
    (do
      let _ ← table.lookup name
      return table.update name f : Except ScopeFault Table).map (fun _ => ()) =
      (table.lookup name).map fun _ => () := by
  cases table.lookup name <;> rfl

theorem answers (h : levels.Stores table) : levels.Answers table where
  depth := h.depth_eq
  level? depth := by
    rcases h.level?_cases depth with ⟨hnone, hnone'⟩ | ⟨level, scope, hlevel, hscope, hlists⟩
    · rw [hnone, hnone']
      rfl
    · rw [hlevel, hscope, Option.map_some,
        hlists.listed_eq (h.regular.distinct scope (Table.mem_scopes_iff.2 ⟨depth, hscope⟩))]
  push := h.push.depth_eq
  pop := by
    rcases h.pop with ⟨htable, hlevels⟩ | ⟨scope, _, level, _, htable, hlevels, hlists, hdistinct, -⟩
    · rw [htable, hlevels]
      rfl
    · rw [htable, hlevels]
      exact congrArg Except.ok (hlists.listed_eq hdistinct)
  declare symbol := (h.declare symbol).1
  lookup := h.lookup_eq
  setState name state := by
    rw [Table.setState, map_set]
    exact (h.change (Symbol.name_setState state) (Symbol.depth_setState state) name).1
  setType name ty := by
    rw [Table.setType, map_set]
    exact (h.change (f := fun symbol => { symbol with ty }) (fun _ => rfl) (fun _ => rfl) name).1

end Stores

/-! ### What is found -/

theorem lookup_eq_ok_iff : table.lookup name = .ok symbol ↔ table.find? name = some symbol := by
  rw [Table.lookup]
  cases table.find? name <;> simp

theorem lookup_eq_error_iff {fault : ScopeFault} :
    table.lookup name = .error fault ↔ table.find? name = none ∧ fault = .notFound name := by
  rw [Table.lookup]
  cases table.find? name <;> simp [eq_comm]

namespace Stores

/-- A name that some scopes do not have is not in the levels that keep them. -/
theorem forall_notMem_iff (h : levels.Stores table) (name : String) (P : Nat → Prop) :
    (∀ depth scope, P depth → table.scope? depth = some scope → name ∉ scope.names) ↔
      ∀ depth level, P depth → levels.level? depth = some level → name ∉ level.order := by
  constructor
  · intro hscopes depth level hP hlevel
    obtain ⟨scope, hscope, hlists⟩ := h.scope?_of_level? hlevel
    rw [hlists.order]
    exact hscopes depth scope hP hscope
  · intro hlevels depth scope hP hscope
    obtain ⟨level, hlevel, hlists⟩ := h.level?_of_scope? hscope
    rw [← hlists.order]
    exact hlevels depth level hP hlevel

theorem lookup_eq_ok (h : levels.Stores table) :
    levels.lookup name = .ok symbol ↔
      ∃ level, levels.level? symbol.depth = some level ∧ level.symbols name = some symbol ∧
        ∀ deeper inner, symbol.depth < deeper → levels.level? deeper = some inner →
          name ∉ inner.order := by
  rw [h.lookup_eq, lookup_eq_ok_iff, h.regular.find?_eq_some_iff]
  constructor
  · rintro ⟨scope, hscope, hget, hdeeper⟩
    obtain ⟨level, hlevel, hlists⟩ := h.level?_of_scope? hscope
    refine ⟨level, hlevel, (hlists.symbols name).trans hget, ?_⟩
    exact (h.forall_notMem_iff name (symbol.depth < ·)).1 hdeeper
  · rintro ⟨level, hlevel, hget, hdeeper⟩
    obtain ⟨scope, hscope, hlists⟩ := h.scope?_of_level? hlevel
    refine ⟨scope, hscope, (hlists.symbols name).symm.trans hget, ?_⟩
    exact (h.forall_notMem_iff name (symbol.depth < ·)).2 hdeeper

theorem lookup_eq_error (h : levels.Stores table) {fault : ScopeFault} :
    levels.lookup name = .error fault ↔ fault = .notFound name ∧
      ∀ depth level, levels.level? depth = some level → name ∉ level.order := by
  have hnone := h.forall_notMem_iff name fun _ => True
  simp only [true_implies] at hnone
  rw [h.lookup_eq, lookup_eq_error_iff, Table.find?_eq_none_iff, hnone, and_comm]

theorem eq_of_lookup (h : levels.Stores table) {other : String} {found : Symbol}
    (hsymbol : levels.lookup name = .ok symbol) (hfound : levels.lookup other = .ok found)
    (hkey : symbol.key = found.key) : name = other ∧ symbol = found := by
  rw [h.lookup_eq, lookup_eq_ok_iff] at hsymbol hfound
  exact h.regular.eq_of_find? hsymbol hfound hkey

/-! ### What is refused -/

theorem declare_eq_error (h : levels.Stores table) {fault : ScopeFault} :
    (levels.declare symbol).1 = .error fault ↔
      (∃ level, levels.level? levels.depth = some level ∧ symbol.name ∈ level.order) ∧
        fault = .duplicate symbol.name := by
  obtain ⟨level, hlevel, hlists⟩ := h.level?_of_scope? (Table.scope?_depth table)
  have hcurrent : (∃ found, levels.level? levels.depth = some found ∧ symbol.name ∈ found.order) ↔
      symbol.name ∈ table.current.names := by
    rw [h.depth_eq, hlevel, ← hlists.order]
    simp
  rw [hcurrent, ← Table.declare_eq_error_iff, (h.declare symbol).1]
  cases table.declare symbol <;> simp [Except.map]

theorem declare_refused (h : levels.Stores table) {fault : ScopeFault}
    (hrefused : (levels.declare symbol).1 = .error fault) : (levels.declare symbol).2 = levels := by
  obtain ⟨hanswer, -, hsame⟩ := h.declare symbol
  apply hsame
  rw [hanswer] at hrefused
  cases hdeclare : table.declare symbol with
  | error cause => exact (Table.declare_eq_error_iff.1 hdeclare).1
  | ok declared =>
      rw [hdeclare] at hrefused
      cases hrefused

theorem pop_eq_error (h : levels.Stores table) {fault : ScopeFault} :
    levels.pop.1 = .error fault ↔ levels.depth = 0 ∧ fault = .underflow := by
  rw [h.depth_eq, ← Table.pop_eq_error_iff]
  rcases h.pop with ⟨htable, hlevels⟩ | ⟨_, _, _, _, htable, hlevels, -⟩
  · rw [htable, hlevels]
    simp
  · rw [htable, hlevels]
    simp

theorem pop_refused (h : levels.Stores table) {fault : ScopeFault}
    (hrefused : levels.pop.1 = .error fault) : levels.pop.2 = levels := by
  rcases h.pop with ⟨-, hlevels⟩ | ⟨_, _, _, _, -, hlevels, -⟩
  · rw [hlevels]
  · rw [hlevels] at hrefused
    cases hrefused

end Stores

/-- What balanced calls do in a new level is gone with the level. -/
theorem Stores.pop_balanced (h : levels.Stores table) {calls : List Table.Call}
    {symbols : List Symbol} (hcalls : Table.Balanced calls symbols) :
    ∃ level, (levels.push.2.performAll calls).pop = (.ok level, levels) ∧
      level.Lists ((firsts symbols).map (·.declaredAt (levels.depth + 1))) := by
  have htable := hcalls.pop table
  rcases (h.push.performAll calls).pop with ⟨herror, -⟩ |
    ⟨scope, popped, level, rest, hok, hlevels, hlists, -, hrest⟩
  · rw [herror] at htable
    cases htable
  · rw [hok] at htable
    cases htable
    rw [hrest.unique h] at hlevels
    rw [h.depth_eq]
    exact ⟨level, hlevels, hlists⟩

/-- After any calls on a new table the data are in order, and the answers are those of the table of
scopes after the same calls. Lookup finds the symbol of the innermost level that has the name, so two
bindings that are found have different names or depths. A declaration is refused when its name is taken
and closing a level when there is only one, and what is refused changes nothing. A level that is opened,
filled by balanced calls and closed again leaves the table as it was, and has taken the first
declaration of each name in order. -/
theorem calls_keep_table_regular :
    (∀ calls, let levels := initial.performAll calls
      levels.Regular ∧
      levels.Stores (Table.initial.performAll calls) ∧
      levels.Answers (Table.initial.performAll calls) ∧
      (∀ name symbol, levels.lookup name = .ok symbol ↔
        ∃ level, levels.level? symbol.depth = some level ∧ level.symbols name = some symbol ∧
          ∀ deeper inner, symbol.depth < deeper → levels.level? deeper = some inner →
            name ∉ inner.order) ∧
      (∀ name fault, levels.lookup name = .error fault ↔ fault = .notFound name ∧
        ∀ depth level, levels.level? depth = some level → name ∉ level.order) ∧
      (∀ name other symbol found, levels.lookup name = .ok symbol →
        levels.lookup other = .ok found → symbol.key = found.key → name = other ∧ symbol = found) ∧
      (∀ symbol fault, (levels.declare symbol).1 = .error fault ↔
        (∃ level, levels.level? levels.depth = some level ∧ symbol.name ∈ level.order) ∧
          fault = .duplicate symbol.name) ∧
      (∀ symbol fault, (levels.declare symbol).1 = .error fault →
        (levels.declare symbol).2 = levels) ∧
      (∀ fault, levels.pop.1 = .error fault ↔ levels.depth = 0 ∧ fault = .underflow) ∧
      ∀ fault, levels.pop.1 = .error fault → levels.pop.2 = levels) ∧
    ∀ levels table calls symbols, Stores levels table → Table.Balanced calls symbols →
      ∃ level, (levels.push.2.performAll calls).pop = (.ok level, levels) ∧
        level.Lists ((firsts symbols).map (·.declaredAt (levels.depth + 1))) := by
  refine ⟨fun calls => ?_, fun levels table calls symbols h hcalls => h.pop_balanced hcalls⟩
  intro levels
  have h : levels.Stores (Table.initial.performAll calls) := Stores.initial.performAll calls
  exact ⟨h.toRegular, h, h.answers, fun _ _ => h.lookup_eq_ok, fun _ _ => h.lookup_eq_error,
    fun _ _ _ _ => h.eq_of_lookup, fun _ _ => h.declare_eq_error, fun _ _ => h.declare_refused,
    fun _ => h.pop_eq_error, fun _ => h.pop_refused⟩

/-- A variable is shadowed in an inner level and declared again in its own: lookup goes to the inner
one while its level is open, and the level that both stand in keeps the first. -/
theorem calls_keep_table_regular_shadowed :
    let outside := Symbol.var "n" (.prim .bool) false {}
    let inside := Symbol.var "n" (.prim .letter) true {}
    let again := Symbol.var "n" (.prim .byte) true {}
    (initial.performAll [.push, .declare outside, .push, .declare inside]).lookup "n" =
        .ok (inside.declaredAt 2) ∧
      ∃ level, (initial.push.2.performAll
          [.declare outside, .push, .declare inside, .pop, .declare again]).pop = (.ok level, initial) ∧
        level.order = ["n"] ∧ level.symbols "n" = some (outside.declaredAt 1) := by
  intro outside inside again
  obtain ⟨hcalls, hbalanced⟩ := calls_keep_table_regular
  obtain ⟨-, -, hanswers, -⟩ := hcalls [.push, .declare outside, .push, .declare inside]
  obtain ⟨level, hpop, hlists⟩ := hbalanced initial Table.initial _ [outside, again] Stores.initial
    (.declare (.nested (.declare .nil) (.declare .nil)))
  exact ⟨hanswers.lookup "n", level, hpop, hlists.order, hlists.symbols "n"⟩

end Levels

end Custody
