import Custody.Proofs.Library.Graph
import Custody.Proofs.Scope.Matched

/-! The table after any calls. Whatever is asked of it, the names of a scope are distinct and each
symbol carries the depth of the scope it stands in, so that a name and a depth tell a binding apart
from all others. A scope that is opened and closed again leaves no trace, and while it is open it
takes the first declaration of every name. -/

namespace Custody

/-- The symbol as it is declared at this depth. -/
def Symbol.declaredAt (symbol : Symbol) (depth : Nat) : Symbol :=
  { symbol with depth }

@[simp] theorem Symbol.name_declaredAt (symbol : Symbol) (depth : Nat) :
    (symbol.declaredAt depth).name = symbol.name := rfl

namespace Scope

variable {scope : Scope} {name : String} {symbol : Symbol}

theorem contains_iff : scope.contains name = true ↔ name ∈ scope.names := by
  simp [contains, names, List.any_eq_true]

theorem contains_eq_false_iff : scope.contains name = false ↔ name ∉ scope.names := by
  rw [← contains_iff, Bool.not_eq_true]

theorem mem_names_iff : name ∈ scope.names ↔ ∃ symbol, scope.get? name = some symbol := by
  rw [← Option.isSome_iff_exists, get?, List.find?_isSome]
  simp [names]

theorem notMem_names_iff : name ∉ scope.names ↔ scope.get? name = none := by
  rw [mem_names_iff, ← Option.isSome_iff_exists, Option.not_isSome_iff_eq_none]

theorem get?_eq_some_iff (hdistinct : scope.names.Nodup) :
    scope.get? name = some symbol ↔ symbol ∈ scope ∧ symbol.name = name :=
  find?_key_eq_some_iff Symbol.name hdistinct

/-- The order of the names and what is found under each of them make up the scope. -/
theorem filterMap_get?_names (hdistinct : scope.names.Nodup) :
    scope.names.filterMap scope.get? = scope := by
  have hfound : ∀ symbol ∈ scope, scope.get? symbol.name = some symbol :=
    fun symbol hsymbol => (get?_eq_some_iff hdistinct).2 ⟨hsymbol, rfl⟩
  calc
    scope.names.filterMap scope.get? = scope.filterMap fun symbol => scope.get? symbol.name :=
      List.filterMap_map
    _ = scope.filterMap some := List.filterMap_congr hfound
    _ = scope := List.filterMap_some

/-! ### The first of each name -/

/-- Of the symbols with one name the first, in the order of the list. -/
def firsts : List Symbol → Scope
  | [] => []
  | symbol :: rest => symbol :: (firsts rest).filter (·.name != symbol.name)

theorem get?_filter_name (scope : Scope) (name other : String) :
    Scope.get? (scope.filter (·.name != other)) name =
      if name = other then none else scope.get? name := by
  unfold get?
  rw [List.find?_filter]
  by_cases hname : name = other
  · simp [hname]
  · rw [if_neg hname]
    congr 1
    funext symbol
    by_cases hsymbol : symbol.name = name
    · simp [hsymbol, hname]
    · simp [hsymbol]

/-- Under each name the first symbol stays. -/
theorem get?_firsts (symbols : List Symbol) (name : String) :
    (firsts symbols).get? name = Scope.get? symbols name := by
  induction symbols with
  | nil => rfl
  | cons symbol rest ih =>
      by_cases hname : symbol.name = name
      · simp [firsts, get?, hname]
      · have hne : ¬ name = symbol.name := Ne.symm hname
        have hrest := get?_filter_name (firsts rest) name symbol.name
        rw [if_neg hne, ih] at hrest
        simpa [firsts, get?, hname] using hrest

theorem nodup_names_firsts (symbols : List Symbol) : (firsts symbols).names.Nodup := by
  induction symbols with
  | nil => exact List.nodup_nil
  | cons symbol rest ih =>
      refine List.nodup_cons.2 ⟨?_, (List.filter_sublist.map _).nodup ih⟩
      simp [List.mem_filter]

/-- A change that leaves the names alone changes the first of each name. -/
theorem firsts_map {f : Symbol → Symbol} (hname : ∀ symbol, (f symbol).name = symbol.name)
    (symbols : List Symbol) : firsts (symbols.map f) = (firsts symbols).map f := by
  induction symbols with
  | nil => rfl
  | cons symbol rest ih =>
      rw [List.map_cons, firsts, ih, firsts, List.map_cons, List.filter_map]
      congr 2
      apply List.filter_congr
      intro other _
      simp [hname]

/-- A symbol is put behind the others unless its name is taken. -/
def enter (scope : Scope) (symbol : Symbol) : Scope :=
  if scope.contains symbol.name then scope else scope ++ [symbol]

/-- The first symbol of each name that a scope does not have. -/
def fresh (scope : Scope) (symbols : List Symbol) : List Symbol :=
  (firsts symbols).filter (·.name ∉ scope.names)

theorem fresh_nil (symbols : List Symbol) : fresh [] symbols = firsts symbols := by
  simp [fresh, names]

/-- Entering symbols one by one keeps the first of each new name. -/
theorem foldl_enter (scope : Scope) (symbols : List Symbol) :
    symbols.foldl enter scope = scope ++ scope.fresh symbols := by
  induction symbols generalizing scope with
  | nil => simp [fresh, firsts]
  | cons symbol rest ih =>
      rw [List.foldl_cons, ih, fresh, fresh, firsts, List.filter_cons, List.filter_filter]
      by_cases htaken : symbol.name ∈ scope.names
      · have henter : scope.enter symbol = scope := by rw [enter, if_pos (contains_iff.2 htaken)]
        rw [henter, if_neg (by simpa using htaken)]
        congr 1
        apply List.filter_congr
        intro other _
        by_cases hname : other.name = symbol.name
        · simp [hname, htaken]
        · simp [hname]
      · have henter : scope.enter symbol = scope ++ [symbol] := by
          rw [enter, if_neg (by rwa [contains_iff])]
        rw [henter, if_pos (by simpa using htaken), List.append_assoc, List.singleton_append]
        congr 2
        apply List.filter_congr
        intro other _
        by_cases hname : other.name = symbol.name <;> simp [names, hname]

end Scope

namespace Table

open Scope

/-! ### Calls -/

/-- What can be asked of a table that changes it. -/
inductive Call where
  | push
  | pop
  | declare (symbol : Symbol)
  | setState (name : String) (state : Holding)
  | setType (name : String) (ty : Ty)
  | setFields (name : String) (fields : List (String × Ty))

/-- The table after a call. What is refused leaves it as it was. -/
def perform (table : Table) : Call → Table
  | .push => table.push
  | .pop => (table.pop.toOption.map (·.2)).getD table
  | .declare symbol => ((table.declare symbol).toOption.map (·.2)).getD table
  | .setState name state => (table.setState name state).toOption.getD table
  | .setType name ty => (table.setType name ty).toOption.getD table
  | .setFields name fields => table.update name (Symbol.setFields fields)

def performAll (table : Table) (calls : List Call) : Table :=
  calls.foldl perform table

variable {table : Table} {name : String} {symbol : Symbol} {depth : Nat} {scope : Scope}

theorem perform_pop_of_inner {outer : List Scope} (h : table.inner = scope :: outer) :
    table.perform .pop = { table with inner := outer } := by
  simp [perform, pop, h, Except.toOption]

theorem pop_eq_error_iff {fault : ScopeFault} :
    table.pop = .error fault ↔ table.depth = 0 ∧ fault = .underflow := by
  unfold pop Table.depth
  cases table.inner <;> simp [eq_comm]

theorem perform_pop_of_depth (h : table.depth = 0) : table.perform .pop = table := by
  rw [perform, pop_eq_error_iff.2 ⟨h, rfl⟩]
  rfl

theorem declare_eq_error_iff {fault : ScopeFault} :
    table.declare symbol = .error fault ↔
      symbol.name ∈ table.current.names ∧ fault = .duplicate symbol.name := by
  rw [← contains_iff]
  unfold declare
  by_cases htaken : table.current.contains symbol.name = true
  · simp [htaken, eq_comm]
  · simp [htaken]

theorem perform_declare_of_taken (h : symbol.name ∈ table.current.names) :
    table.perform (.declare symbol) = table := by
  simp [perform, declare, contains_iff.2 h, Except.toOption]

theorem perform_declare_of_new (h : symbol.name ∉ table.current.names) :
    table.perform (.declare symbol) = table.append (symbol.declaredAt table.depth) := by
  simp [perform, declare, contains_eq_false_iff.2 h, Except.toOption, Symbol.declaredAt]

/-- Only what is found is set. -/
theorem perform_set (f : Symbol → Symbol) (name : String) :
    ((do
      let _ ← table.lookup name
      return table.update name f : Except ScopeFault Table).toOption).getD table =
      if (table.find? name).isSome then table.update name f else table := by
  unfold lookup
  cases table.find? name <;> rfl

/-! ### Distinct names and right depths -/

/-- In every scope the names are distinct, and each symbol has the depth of its scope. -/
structure Regular (table : Table) : Prop where
  distinct : ∀ scope ∈ table.scopes, scope.names.Nodup
  aligned : table.Aligned

theorem scope?_append_of_lt (h : depth < table.depth) (symbol : Symbol) :
    (table.append symbol).scope? depth = table.scope? depth := by
  rw [scope?_eq_outer h, scope?_eq_outer (by rwa [depth_append]), outer_append]

theorem scope?_append_depth (table : Table) (symbol : Symbol) :
    (table.append symbol).scope? table.depth = some (table.current ++ [symbol]) := by
  rw [← current_append, ← depth_append table symbol, scope?_depth]

theorem mem_scopes_iff : scope ∈ table.scopes ↔ ∃ depth, table.scope? depth = some scope :=
  List.mem_iff_getElem?

namespace Regular

theorem of_scope? (hdistinct : ∀ depth scope, table.scope? depth = some scope → scope.names.Nodup)
    (haligned : table.Aligned) : table.Regular where
  distinct scope hscope := by
    obtain ⟨depth, hdepth⟩ := mem_scopes_iff.1 hscope
    exact hdistinct depth scope hdepth
  aligned := haligned

theorem push (h : table.Regular) : table.push.Regular where
  distinct := by
    rw [scopes_push]
    exact List.forall_mem_append.2 ⟨h.distinct, by simp [names]⟩
  aligned := h.aligned.push

theorem append (h : table.Regular) (hnew : symbol.name ∉ table.current.names)
    (hdepth : symbol.depth = table.depth) : (table.append symbol).Regular := by
  have hcurrent : table.current ∈ table.scopes := mem_scopes_iff.2 ⟨_, scope?_depth table⟩
  have hscope : ∀ {depth scope}, (table.append symbol).scope? depth = some scope →
      table.scope? depth = some scope ∨
        depth = table.depth ∧ scope = table.current ++ [symbol] := by
    intro depth scope hfound
    have hle := le_depth_of_scope? hfound
    rw [depth_append] at hle
    rcases Nat.lt_or_eq_of_le hle with hlt | rfl
    · rw [scope?_append_of_lt hlt] at hfound
      exact .inl hfound
    · rw [scope?_append_depth] at hfound
      exact .inr ⟨rfl, (Option.some.inj hfound).symm⟩
  apply of_scope?
  · intro depth scope hfound
    rcases hscope hfound with hold | ⟨-, rfl⟩
    · exact h.distinct scope (mem_scopes_iff.2 ⟨depth, hold⟩)
    · rw [names, List.map_append, List.map_singleton]
      refine List.nodup_append.2 ⟨h.distinct _ hcurrent, by simp, ?_⟩
      rintro other hother _ hsymbol rfl
      rw [List.mem_singleton.1 hsymbol] at hother
      exact hnew hother
  · intro depth scope hfound
    rcases hscope hfound with hold | ⟨rfl, rfl⟩
    · exact h.aligned depth scope hold
    · exact List.forall_mem_append.2
        ⟨h.aligned _ _ (scope?_depth table), List.forall_mem_singleton.2 hdepth⟩

theorem pop {outer : List Scope} (h : table.Regular) (hinner : table.inner = scope :: outer) :
    Regular { table with inner := outer } := by
  have hscopes : table.scopes = ({ table with inner := outer } : Table).scopes ++ [scope] := by
    simp [scopes, hinner]
  constructor
  · intro other hother
    exact h.distinct other (by rw [hscopes]; exact List.mem_append_left _ hother)
  · intro depth other hother
    apply h.aligned depth
    rw [scope?, hscopes]
    exact List.getElem?_append_left (List.getElem?_eq_some_iff.1 hother).1 ▸ hother

/-- Changing a symbol does no harm as long as its name and depth stay. -/
theorem update {f : Symbol → Symbol} (h : table.Regular) (hname : ∀ a, (f a).name = a.name)
    (hdepth : ∀ a, (f a).depth = a.depth) (name : String) : (table.update name f).Regular := by
  have hself := Matched.refl (r := fun a b => a.key = b.key) (fun _ => rfl) table
  have hupdate : Matched (fun a b => a.key = b.key) (table.update name id) (table.update name f) :=
    .update (fun hab => (Binding.mk.inj hab).1.symm)
      (fun {a b} hab => by simpa [Symbol.key, hname, hdepth] using hab) hself
  rw [update_id] at hupdate
  have hscopes : List.Forall₂ (List.Forall₂ fun a b : Symbol => a.key = b.key)
      table.scopes (table.update name f).scopes :=
    .cons hupdate.root (List.rel_reverse hupdate.inner)
  have hkeys : ∀ {before after : Scope}, List.Forall₂ (fun a b : Symbol => a.key = b.key)
      before after → before.map (·.key) = after.map (·.key) := by
    intro before after hrel
    rw [← List.forall₂_eq_eq_eq, List.forall₂_map_left_iff, List.forall₂_map_right_iff]
    exact hrel
  have hback : ∀ {depth after}, (table.update name f).scope? depth = some after →
      ∃ before, table.scope? depth = some before ∧
        before.map (·.key) = after.map (·.key) := by
    intro depth after hafter
    obtain ⟨hlt, rfl⟩ := List.getElem?_eq_some_iff.1 hafter
    have hlt' : depth < table.scopes.length := hscopes.length_eq ▸ hlt
    exact ⟨table.scopes[depth], List.getElem?_eq_getElem hlt', hkeys (hscopes.get hlt' hlt)⟩
  have hnames : ∀ scope : Scope, scope.names = (scope.map (·.key)).map (·.name) :=
    fun scope => by rw [List.map_map]; rfl
  apply of_scope?
  · intro depth after hafter
    obtain ⟨before, hbefore, hsame⟩ := hback hafter
    rw [hnames, ← hsame, ← hnames]
    exact h.distinct before (mem_scopes_iff.2 ⟨depth, hbefore⟩)
  · intro depth after hafter symbol hsymbol
    obtain ⟨before, hbefore, hsame⟩ := hback hafter
    have hmem : symbol.key ∈ before.map (·.key) := hsame ▸ List.mem_map_of_mem hsymbol
    obtain ⟨old, hold, hkey⟩ := List.mem_map.1 hmem
    exact (Binding.mk.inj hkey).2 ▸ h.aligned depth before hbefore old hold

/-- One call keeps the table regular. -/
theorem perform (h : table.Regular) (call : Call) : (table.perform call).Regular := by
  have hset : ∀ {f : Symbol → Symbol} {name}, (∀ a, (f a).name = a.name) →
      (∀ a, (f a).depth = a.depth) →
      Regular (if (table.find? name).isSome then table.update name f else table) := by
    intro f name hname hdepth
    split
    · exact h.update hname hdepth name
    · exact h
  cases call with
  | push => exact h.push
  | pop =>
      cases hinner : table.inner with
      | nil =>
          rw [perform_pop_of_depth (by simp [Table.depth, hinner])]
          exact h
      | cons scope outer =>
          rw [perform_pop_of_inner hinner]
          exact h.pop hinner
  | declare symbol =>
      by_cases htaken : symbol.name ∈ table.current.names
      · rw [perform_declare_of_taken htaken]
        exact h
      · rw [perform_declare_of_new htaken]
        exact h.append htaken rfl
  | setState name state =>
      rw [Table.perform, setState, perform_set]
      exact hset (Symbol.name_setState state) (Symbol.depth_setState state)
  | setType name ty =>
      rw [Table.perform, setType, perform_set]
      exact hset (fun _ => rfl) fun _ => rfl
  | setFields name fields =>
      exact h.update (Symbol.name_setFields fields)
        (fun a => (Symbol.revised_setFields fields a).depth_eq) name

theorem performAll (h : table.Regular) (calls : List Call) : (table.performAll calls).Regular := by
  induction calls generalizing table with
  | nil => exact h
  | cons call calls ih => exact ih (h.perform call)

theorem initial : Table.initial.Regular where
  distinct := by
    have hbuiltins : (Scope.names builtins).Nodup := by decide +kernel
    simpa [Table.initial, scopes] using hbuiltins
  aligned := by
    have hbuiltins : ∀ symbol ∈ builtins, symbol.depth = 0 := by decide +kernel
    intro depth scope hscope symbol hsymbol
    obtain rfl : depth = 0 := Nat.le_zero.1 (le_depth_of_scope? hscope)
    cases hscope
    exact hbuiltins symbol hsymbol

/-- A name and a depth belong to one symbol at most. -/
theorem eq_of_key {other : Scope} {found : Symbol} {depth' : Nat} (h : table.Regular)
    (hscope : table.scope? depth = some scope) (hsymbol : symbol ∈ scope)
    (hother : table.scope? depth' = some other) (hfound : found ∈ other)
    (hkey : symbol.key = found.key) : depth = depth' ∧ symbol = found := by
  obtain ⟨hname, hdepth⟩ := Binding.mk.inj hkey
  rw [h.aligned depth scope hscope symbol hsymbol, h.aligned depth' other hother found hfound]
    at hdepth
  subst hdepth
  obtain rfl := Option.some.inj (hscope.symm.trans hother)
  have hdistinct := h.distinct scope (mem_scopes_iff.2 ⟨depth, hscope⟩)
  exact ⟨rfl, List.inj_on_of_nodup_map hdistinct hsymbol hfound hname⟩

end Regular

/-! ### Lookup -/

/-- What is found under a name is the symbol of the innermost scope that has one. -/
theorem find?_eq_some_iff :
    table.find? name = some symbol ↔
      ∃ depth scope, table.scope? depth = some scope ∧ scope.get? name = some symbol ∧
        ∀ deeper inner, depth < deeper → table.scope? deeper = some inner →
          name ∉ inner.names := by
  have hscopes : table.scopes.reverse = table.current :: table.outer := by
    rw [scopes_eq, List.reverse_reverse]
  rw [find?_eq, ← findSome?_get?_cons, ← hscopes]
  constructor
  · intro hfind
    obtain ⟨within, scope, around, hsplit, hget, hwithin⟩ := List.findSome?_eq_some_iff.1 hfind
    have hsplit' : table.scopes = around.reverse ++ scope :: within.reverse := by
      rw [← List.reverse_inj, hsplit]
      simp
    refine ⟨around.length, scope, by simp [scope?, hsplit'], hget, ?_⟩
    intro deeper inner hlt hinner
    rw [notMem_names_iff]
    apply hwithin inner
    rw [scope?, hsplit', List.getElem?_append_right (by simpa using Nat.le_of_lt hlt),
      List.length_reverse, List.getElem?_cons, if_neg (by omega)] at hinner
    exact List.mem_reverse.1 (List.mem_of_getElem? hinner)
  · rintro ⟨depth, scope, hscope, hget, hdeeper⟩
    obtain ⟨hlt, hat⟩ := List.getElem?_eq_some_iff.1 hscope
    have hsplit : table.scopes.reverse = (table.scopes.drop (depth + 1)).reverse ++
        scope :: (table.scopes.take depth).reverse := by
      rw [← List.reverse_inj]
      simp [← hat]
    rw [hsplit]
    refine List.findSome?_eq_some_iff.2 ⟨_, _, _, rfl, hget, fun inner hinner => ?_⟩
    obtain ⟨index, hindex⟩ := List.mem_iff_getElem?.1 (List.mem_reverse.1 hinner)
    rw [List.getElem?_drop] at hindex
    exact notMem_names_iff.1 (hdeeper _ inner (by omega) hindex)

/-- In a regular table the depth of the symbol tells the scope. -/
theorem Regular.find?_eq_some_iff (h : table.Regular) :
    table.find? name = some symbol ↔
      ∃ scope, table.scope? symbol.depth = some scope ∧ scope.get? name = some symbol ∧
        ∀ deeper inner, symbol.depth < deeper → table.scope? deeper = some inner →
          name ∉ inner.names := by
  rw [Table.find?_eq_some_iff]
  constructor
  · rintro ⟨depth, scope, hscope, hget, hdeeper⟩
    obtain rfl := h.aligned depth scope hscope symbol (List.mem_of_find?_eq_some hget)
    exact ⟨scope, hscope, hget, hdeeper⟩
  · rintro ⟨scope, hscope⟩
    exact ⟨symbol.depth, scope, hscope⟩

theorem find?_eq_none_iff :
    table.find? name = none ↔
      ∀ depth scope, table.scope? depth = some scope → name ∉ scope.names := by
  rw [find?_eq, ← findSome?_get?_cons, List.findSome?_eq_none_iff]
  have hscopes : ∀ scope, scope ∈ table.current :: table.outer ↔ scope ∈ table.scopes := by
    intro scope
    rw [scopes_eq, List.mem_reverse]
  simp only [hscopes, mem_scopes_iff, notMem_names_iff]
  constructor
  · intro hnone depth scope hscope
    exact hnone scope ⟨depth, hscope⟩
  · rintro hnone scope ⟨depth, hscope⟩
    exact hnone depth scope hscope

/-- Bindings that are found are told apart by their keys. -/
theorem Regular.eq_of_find? {other : String} {found : Symbol} (h : table.Regular)
    (hsymbol : table.find? name = some symbol) (hfound : table.find? other = some found)
    (hkey : symbol.key = found.key) : name = other ∧ symbol = found := by
  obtain ⟨scope, hscope, hget, -⟩ := h.find?_eq_some_iff.1 hsymbol
  obtain ⟨scope', hscope', hget', -⟩ := h.find?_eq_some_iff.1 hfound
  have hmem := List.mem_of_find?_eq_some hget
  have hmem' := List.mem_of_find?_eq_some hget'
  obtain ⟨-, rfl⟩ := h.eq_of_key hscope hmem hscope' hmem' hkey
  have hname : symbol.name = name := by simpa using List.find?_some hget
  have hname' : symbol.name = other := by simpa using List.find?_some hget'
  exact ⟨hname.symm.trans hname', rfl⟩

/-! ### Scopes that are closed again -/

/-- Calls that close every scope they open and no other, with the symbols that they declare outside
of the scopes they open. -/
inductive Balanced : List Call → List Symbol → Prop
  | nil : Balanced [] []
  | declare {symbol : Symbol} {calls : List Call} {symbols : List Symbol}
      (hcalls : Balanced calls symbols) : Balanced (.declare symbol :: calls) (symbol :: symbols)
  | nested {inside calls : List Call} {within symbols : List Symbol}
      (hinside : Balanced inside within) (hcalls : Balanced calls symbols) :
      Balanced (.push :: (inside ++ .pop :: calls)) symbols

/-- In a scope of its own, a declaration is entered into that scope. -/
theorem perform_declare (root scope : Scope) (outer : List Scope) (symbol : Symbol) :
    perform ⟨root, scope :: outer⟩ (.declare symbol) =
      ⟨root, scope.enter (symbol.declaredAt (outer.length + 1)) :: outer⟩ := by
  by_cases htaken : symbol.name ∈ scope.names
  · rw [perform_declare_of_taken htaken, enter, Symbol.name_declaredAt,
      if_pos (contains_iff.2 htaken)]
  · rw [perform_declare_of_new htaken, enter, Symbol.name_declaredAt,
      if_neg (by rwa [contains_iff])]
    rfl

/-- Balanced calls change nothing but the innermost scope. -/
theorem Balanced.performAll {calls : List Call} {symbols : List Symbol}
    (h : Balanced calls symbols) (root scope : Scope) (outer : List Scope) :
    Table.performAll ⟨root, scope :: outer⟩ calls =
      ⟨root, (symbols.map (·.declaredAt (outer.length + 1))).foldl enter scope :: outer⟩ := by
  induction h generalizing scope outer with
  | nil => rfl
  | declare hcalls ih =>
      rw [Table.performAll, List.foldl_cons, perform_declare]
      exact ih _ outer
  | nested hinside hcalls ihinside ihcalls =>
      rw [Table.performAll, List.foldl_cons, List.foldl_append, List.foldl_cons]
      have hopened : perform ⟨root, scope :: outer⟩ .push = ⟨root, [] :: scope :: outer⟩ := rfl
      have hinside' := ihinside [] (scope :: outer)
      rw [Table.performAll] at hinside'
      rw [hopened, hinside', perform_pop_of_inner rfl]
      exact ihcalls scope outer

/-- What balanced calls do in a new scope is gone with the scope, which has taken the first
declaration of each name. -/
theorem Balanced.pop {calls : List Call} {symbols : List Symbol} (h : Balanced calls symbols)
    (table : Table) :
    (table.push.performAll calls).pop =
      .ok ((firsts symbols).map (·.declaredAt (table.depth + 1)), table) := by
  have hrun := h.performAll table.root [] table.inner
  rw [foldl_enter, List.nil_append, fresh_nil, firsts_map (Symbol.name_declaredAt · _)] at hrun
  exact congrArg Table.pop hrun

end Table

end Custody
