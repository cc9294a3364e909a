import Custody.Settings.Document
import Mathlib.Data.List.Nodup

/-! What a settings document says. Its tables can be written in several ways, with headers, dotted keys
and braces, but what counts is which values its lines assign and under which path. The tables that
are built hold these values and no others, and no path is assigned twice. -/

namespace Custody.Settings

/-- Values are what lines assign. A table is one only if it is written in braces. -/
def Node.isValue : Node → Bool
  | .table origin _ => origin = .inline
  | _ => true

/-- The value that a path leads to. No path leads into a table in braces. -/
def Node.value? : Node → List String → Option Node
  | node, [] => if node.isValue then some node else none
  | .table origin entries, key :: path =>
      if origin = .inline then none else (Entries.get? entries key).bind (·.value? path)
  | _, _ :: _ => none

theorem Node.value?_of_isValue {value : Node} (h : value.isValue = true) (path : List String) :
    value.value? path = if path = [] then some value else none := by
  cases path with
  | nil => simp [Node.value?, h]
  | cons key path =>
      cases value with
      | table origin entries =>
          have horigin : origin = .inline := by simpa [Node.isValue] using h
          simp [Node.value?, horigin]
      | _ => rfl

namespace Entries

variable {entries after inner inner' : Entries} {key name : String} {value : Node} {origin : Origin}
  {tables path : List String}

/-! ### Entries by their keys -/

def keys (entries : Entries) : List String :=
  entries.map Prod.fst

theorem any_key : entries.any (·.1 == key) = true ↔ key ∈ entries.keys := by
  simp [keys]

theorem keys_set (entries : Entries) (key : String) (node : Node) :
    (entries.set key node).keys =
      if key ∈ entries.keys then entries.keys else entries.keys ++ [key] := by
  unfold set
  simp only [any_key]
  split
  · unfold keys
    rw [List.map_map]
    refine List.map_congr_left fun entry _ => ?_
    by_cases hkey : entry.1 = key <;> simp [hkey]
  · simp [keys]

theorem nodup_keys_set (h : entries.keys.Nodup) (key : String) (node : Node) :
    (entries.set key node).keys.Nodup := by
  rw [keys_set]
  split
  · exact h
  · rename_i hnew
    rw [← List.concat_eq_append]
    exact h.concat hnew

theorem get?_nil (key : String) : get? [] key = none :=
  rfl

theorem get?_cons (first key : String) (node : Node) (entries : Entries) :
    get? ((first, node) :: entries) key = if key = first then some node else entries.get? key := by
  unfold get?
  by_cases h : key = first
  · simp [h]
  · simp [h, List.lookup_cons, beq_false_of_ne h]

theorem get?_eq_none (h : key ∉ entries.keys) : entries.get? key = none := by
  refine List.lookup_eq_none_iff.2 fun entry hentry => bne_iff_ne.2 ?_
  rintro rfl
  exact h (List.mem_map_of_mem hentry)

theorem get?_set_self (entries : Entries) (key : String) (node : Node) :
    (entries.set key node).get? key = some node := by
  unfold set
  simp only [any_key]
  split
  · rename_i hold
    induction entries with
    | nil => cases hold
    | cons entry entries ih =>
        rw [List.map_cons]
        by_cases hentry : entry.1 = key
        · rw [if_pos (beq_iff_eq.2 hentry), get?_cons, if_pos rfl]
        · rw [if_neg (by simpa using hentry), get?_cons, if_neg (Ne.symm hentry)]
          exact ih ((List.mem_cons.1 hold).resolve_left (Ne.symm hentry))
  · rename_i hnew
    have happend : get? (entries ++ [(key, node)]) key =
        (entries.get? key).or (get? [(key, node)] key) := List.lookup_append
    rw [happend, get?_eq_none hnew, Option.none_or, get?_cons, if_pos rfl]

theorem get?_set_of_ne {other : String} (h : other ≠ key) (entries : Entries) (node : Node) :
    (entries.set key node).get? other = entries.get? other := by
  unfold set
  split
  · rename_i hold
    clear hold
    induction entries with
    | nil => rfl
    | cons entry entries ih =>
        rw [List.map_cons]
        by_cases hentry : entry.1 = key
        · rw [if_pos (beq_iff_eq.2 hentry), get?_cons, if_neg h, ih, get?_cons,
            if_neg (hentry ▸ h)]
        · rw [if_neg (by simpa using hentry), get?_cons, get?_cons, ih]
  · have happend : get? (entries ++ [(key, node)]) other =
        (entries.get? other).or (get? [(key, node)] other) := List.lookup_append
    rw [happend, get?_cons, if_neg h]
    exact Option.or_none

/-- Setting a key changes what stands under this key only. -/
theorem get?_set (entries : Entries) (key other : String) (node : Node) :
    (entries.set key node).get? other = if other = key then some node else entries.get? other := by
  split
  · rename_i h
    rw [h, get?_set_self]
  · rename_i h
    exact get?_set_of_ne h entries node

/-! ### Values by their paths -/

/-- The value that a path leads to from the table with these entries. -/
def value? (entries : Entries) (path : List String) : Option Node :=
  (Node.table .header entries).value? path

theorem value?_nil (entries : Entries) : entries.value? [] = none :=
  rfl

theorem value?_cons (entries : Entries) (key : String) (path : List String) :
    entries.value? (key :: path) = (entries.get? key).bind (·.value? path) :=
  rfl

theorem value?_empty (path : List String) : value? [] path = none := by
  cases path with
  | nil => rfl
  | cons key path => rfl

/-- Unless it is written in braces, a table is searched regardless of where it came from. -/
theorem value?_table (h : origin ≠ .inline) (entries : Entries) (path : List String) :
    (Node.table origin entries).value? path = entries.value? path := by
  cases path with
  | nil => simp [Node.value?, Node.isValue, h, value?_nil]
  | cons key path => simp [Node.value?, h, value?_cons]

theorem value?_of_new (h : entries.get? name = none) (path : List String) :
    entries.value? (name :: path) = value? [] path := by
  rw [value?_cons, h, value?_empty]
  rfl

theorem value?_of_table (h : entries.get? name = some (.table origin inner))
    (horigin : origin ≠ .inline) (path : List String) :
    entries.value? (name :: path) = inner.value? path := by
  rw [value?_cons, h, Option.bind_some, value?_table horigin]

theorem value?_set (entries : Entries) (name key : String) (node : Node) (path : List String) :
    (entries.set name node).value? (key :: path) =
      if key = name then node.value? path else entries.value? (key :: path) := by
  rw [value?_cons, get?_set]
  split
  · rfl
  · rw [value?_cons]

/-- A table is replaced by one with the same values. -/
theorem value?_set_table (horigin : origin ≠ .inline)
    (hname : ∀ rest, entries.value? (name :: rest) = inner.value? rest) :
    (entries.set name (.table origin inner)).value? path = entries.value? path := by
  cases path with
  | nil => rfl
  | cons key rest =>
      rw [value?_set, value?_table horigin]
      split
      · rename_i hkey
        rw [hkey, hname]
      · rfl

/-- The value has been put under a path that led to none, and the other paths lead to what they led to
before. -/
structure Puts (path : List String) (value : Node) (entries after : Entries) : Prop where
  new : entries.value? path = none
  value?_eq : ∀ other, after.value? other = if other = path then some value else entries.value? other

/-- What is put into a table is put into the one around it. The table can be a new one. -/
theorem Puts.nest (h : Puts path value inner inner') (horigin : origin ≠ .inline)
    (hname : ∀ path, entries.value? (name :: path) = inner.value? path) :
    Puts (name :: path) value entries (entries.set name (.table origin inner')) where
  new := (hname path).trans h.new
  value?_eq other := by
    cases other with
    | nil => rfl
    | cons key other =>
        rw [value?_set, value?_table horigin, h.value?_eq]
        by_cases hkey : key = name
        · subst hkey
          simp [hname]
        · simp [hkey]

/-! ### One line -/

/-- A key without a dot is new. -/
theorem assign_nil (h : entries.assign [] key value = some after) :
    entries.get? key = none ∧ after = entries.set key value := by
  unfold assign at h
  split at h
  · cases h
  · rename_i hnew
    cases h
    exact ⟨hnew, rfl⟩

/-- A dotted key is assigned in a table, which can be a new one. -/
theorem assign_cons (h : entries.assign (name :: tables) key value = some after) :
    ∃ origin inner inner', origin ≠ .inline ∧
      (∀ rest, entries.value? (name :: rest) = value? inner rest) ∧
      assign inner tables key value = some inner' ∧ after = entries.set name (.table origin inner') := by
  unfold assign at h
  split at h
  · rename_i hnew
    obtain ⟨inner', hinner, hafter⟩ := Option.bind_eq_some_iff.1 h
    cases hafter
    exact ⟨.dotted, [], inner', by decide, value?_of_new hnew, hinner, rfl⟩
  · rename_i origin inner hname
    split at h
    · rename_i horigin
      obtain ⟨inner', hinner, hafter⟩ := Option.bind_eq_some_iff.1 h
      cases hafter
      have hopen : origin ≠ .inline := by
        rcases horigin with rfl | ⟨rfl, -⟩ <;> decide
      exact ⟨origin, inner, inner', hopen, value?_of_table hname hopen, hinner, rfl⟩
    · cases h
  · cases h

/-- A header without a dot names a new table or one that was implied. -/
theorem declare_nil (h : entries.declare [] name = some after) :
    ∃ inner, (∀ rest, entries.value? (name :: rest) = value? inner rest) ∧
      after = entries.set name (.table .header inner) := by
  unfold declare at h
  split at h
  · rename_i hnew
    cases h
    exact ⟨[], value?_of_new hnew, rfl⟩
  · rename_i inner hname
    cases h
    exact ⟨inner, value?_of_table hname (by decide), rfl⟩
  · cases h

/-- A dotted header names a table in another one, which can be a new one. -/
theorem declare_cons {table : String} (h : entries.declare (table :: tables) name = some after) :
    ∃ origin inner inner', origin ≠ .inline ∧
      (∀ rest, entries.value? (table :: rest) = value? inner rest) ∧
      declare inner tables name = some inner' ∧ after = entries.set table (.table origin inner') := by
  unfold declare at h
  split at h
  · rename_i hnew
    obtain ⟨inner', hinner, hafter⟩ := Option.bind_eq_some_iff.1 h
    cases hafter
    exact ⟨.implied, [], inner', by decide, value?_of_new hnew, hinner, rfl⟩
  · cases h
  · rename_i origin inner hopen hname
    obtain ⟨inner', hinner, hafter⟩ := Option.bind_eq_some_iff.1 h
    cases hafter
    exact ⟨origin, inner, inner', hopen, value?_of_table hname hopen, hinner, rfl⟩
  · cases h

/-- An assignment puts its value under the dotted key. -/
theorem assign_puts (h : entries.assign tables key value = some after) (hvalue : value.isValue = true) :
    Puts (tables ++ [key]) value entries after := by
  induction tables generalizing entries after with
  | nil =>
      obtain ⟨hnew, rfl⟩ := assign_nil h
      refine ⟨by rw [List.nil_append, value?_of_new hnew, value?_empty], fun other => ?_⟩
      cases other with
      | nil => rfl
      | cons first rest =>
          rw [value?_set, Node.value?_of_isValue hvalue]
          by_cases hfirst : first = key
          · simp [hfirst, value?_of_new hnew, value?_empty]
          · simp [hfirst]
  | cons name tables ih =>
      obtain ⟨origin, inner, inner', horigin, hname, hinner, rfl⟩ := assign_cons h
      exact (ih hinner).nest horigin hname

/-- A header adds tables, but no values. -/
theorem declare_value? (h : entries.declare tables name = some after) (path : List String) :
    after.value? path = entries.value? path := by
  induction tables generalizing entries after path with
  | nil =>
      obtain ⟨inner, hname, rfl⟩ := declare_nil h
      exact value?_set_table (by decide) hname
  | cons table tables ih =>
      obtain ⟨origin, inner, inner', horigin, htable, hinner, rfl⟩ := declare_cons h
      exact value?_set_table horigin fun rest => (htable rest).trans (ih hinner rest).symm

/-- No table on the way is written in braces. -/
def Leads : Entries → List String → Prop
  | _, [] => True
  | entries, name :: names => ∃ origin inner,
      entries.get? name = some (.table origin inner) ∧ origin ≠ .inline ∧ Leads inner names

theorem declare_leads (h : entries.declare tables name = some after) :
    after.Leads (tables ++ [name]) := by
  induction tables generalizing entries after with
  | nil =>
      obtain ⟨inner, -, rfl⟩ := declare_nil h
      exact ⟨.header, inner, get?_set_self .., by decide, trivial⟩
  | cons table tables ih =>
      obtain ⟨origin, inner, inner', horigin, -, hinner, rfl⟩ := declare_cons h
      exact ⟨origin, inner', get?_set_self .., horigin, ih hinner⟩

/-- A change within a table. -/
theorem within_cons {change : Entries → Option Entries} {here : List String}
    (h : entries.within (name :: here) change = some after) (hhere : entries.Leads (name :: here)) :
    ∃ origin inner inner', entries.get? name = some (.table origin inner) ∧ origin ≠ .inline ∧
      Leads inner here ∧ within inner here change = some inner' ∧
      after = entries.set name (.table origin inner') := by
  obtain ⟨origin, inner, hname, horigin, hinner⟩ := hhere
  unfold within at h
  simp only [hname] at h
  obtain ⟨inner', hwithin, hafter⟩ := Option.bind_eq_some_iff.1 h
  cases hafter
  exact ⟨origin, inner, inner', hname, horigin, hinner, hwithin, rfl⟩

theorem within_leads {change : Entries → Option Entries} {here : List String}
    (h : entries.within here change = some after) (hhere : entries.Leads here) : after.Leads here := by
  induction here generalizing entries after with
  | nil => trivial
  | cons name here ih =>
      obtain ⟨origin, inner, inner', hname, horigin, hinner, hwithin, rfl⟩ := within_cons h hhere
      exact ⟨origin, inner', get?_set_self .., horigin, ih hwithin hinner⟩

theorem within_puts {change : Entries → Option Entries} {here : List String}
    (h : entries.within here change = some after) (hhere : entries.Leads here)
    (hchange : ∀ {entries after}, change entries = some after → Puts path value entries after) :
    Puts (here ++ path) value entries after := by
  induction here generalizing entries after with
  | nil => exact hchange h
  | cons name here ih =>
      obtain ⟨origin, inner, inner', hname, horigin, hinner, hwithin, rfl⟩ := within_cons h hhere
      exact (ih hwithin hinner).nest horigin (value?_of_table hname horigin)

/-! ### One entry of the outermost table -/

theorem assign_eq_set (h : entries.assign tables key value = some after) :
    ∃ name node, after = entries.set name node := by
  cases tables with
  | nil => exact ⟨key, value, (assign_nil h).2⟩
  | cons name tables =>
      obtain ⟨origin, _, inner', -, -, -, rfl⟩ := assign_cons h
      exact ⟨name, .table origin inner', rfl⟩

theorem declare_eq_set (h : entries.declare tables name = some after) :
    ∃ name node, after = entries.set name node := by
  cases tables with
  | nil =>
      obtain ⟨inner, -, rfl⟩ := declare_nil h
      exact ⟨name, .table .header inner, rfl⟩
  | cons table tables =>
      obtain ⟨origin, _, inner', -, -, -, rfl⟩ := declare_cons h
      exact ⟨table, .table origin inner', rfl⟩

theorem within_eq_set {change : Entries → Option Entries} {here : List String}
    (h : entries.within here change = some after)
    (hchange : change entries = some after → ∃ name node, after = entries.set name node) :
    ∃ name node, after = entries.set name node := by
  unfold within at h
  split at h
  · exact hchange h
  · split at h
    · obtain ⟨inner, -, hafter⟩ := Option.bind_eq_some_iff.1 h
      cases hafter
      exact ⟨_, _, rfl⟩
    · cases h

end Entries

/-! ### Documents -/

/-- Lines assign values only. -/
def Line.AssignsValue : Line → Prop
  | .assign _ _ value => value.isValue = true
  | .header _ _ => True

/-- The values that lines assign, with their paths. The first argument is the table of the last
header. -/
def assigned : (here : List String) → List Line → List (List String × Node)
  | _, [] => []
  | here, .assign tables key value :: lines => (here ++ (tables ++ [key]), value) :: assigned here lines
  | _, .header tables name :: lines => assigned (tables ++ [name]) lines

open Entries

variable {lines : List Line} {here : List String} {entries after : Entries}

/-- The lines of a document put their values into the tables, one after the other. -/
theorem build_puts (h : build here entries lines = some after) (hhere : entries.Leads here)
    (hlines : ∀ line ∈ lines, line.AssignsValue) :
    ((assigned here lines).map Prod.fst).Nodup ∧
      (∀ path ∈ (assigned here lines).map Prod.fst, entries.value? path = none) ∧
      ∀ path value, after.value? path = some value ↔
        entries.value? path = some value ∨ (path, value) ∈ assigned here lines := by
  induction lines generalizing here entries with
  | nil =>
      cases h
      simp [assigned]
  | cons line lines ih =>
      have hrest : ∀ line ∈ lines, line.AssignsValue := fun other hother =>
        hlines other (List.mem_cons_of_mem _ hother)
      cases line with
      | assign tables key value =>
          obtain ⟨between, hwithin, hbuild⟩ := Option.bind_eq_some_iff.1 h
          have hputs := within_puts hwithin hhere fun hassign =>
            assign_puts hassign (hlines _ List.mem_cons_self)
          obtain ⟨hnodup, hnew, hvalues⟩ := ih hbuild (within_leads hwithin hhere) hrest
          have hfirst : here ++ (tables ++ [key]) ∉ (assigned here lines).map Prod.fst := by
            intro hmem
            have hnone := hnew _ hmem
            rw [hputs.value?_eq, if_pos rfl] at hnone
            cases hnone
          refine ⟨List.nodup_cons.2 ⟨hfirst, hnodup⟩, ?_, fun path value' => ?_⟩
          · rintro path (_ | ⟨_, hpath⟩)
            · exact hputs.new
            · have hnone := hnew path hpath
              rw [hputs.value?_eq] at hnone
              split at hnone
              · cases hnone
              · exact hnone
          · rw [hvalues, hputs.value?_eq, assigned, List.mem_cons]
            split
            · rename_i hpath
              simp [hpath, hputs.new, eq_comm]
            · rename_i hpath
              simp [hpath]
      | header tables name =>
          obtain ⟨between, hdeclare, hbuild⟩ := Option.bind_eq_some_iff.1 h
          obtain ⟨hnodup, hnew, hvalues⟩ := ih hbuild (declare_leads hdeclare) hrest
          simp only [declare_value? hdeclare] at hnew hvalues
          exact ⟨hnodup, hnew, hvalues⟩

/-- The keys of the outermost table are distinct. -/
theorem nodup_keys_build (h : build here entries lines = some after) (hkeys : entries.keys.Nodup) :
    after.keys.Nodup := by
  induction lines generalizing here entries with
  | nil =>
      cases h
      exact hkeys
  | cons line lines ih =>
      have hset : ∃ here name node, build here (entries.set name node) lines = some after := by
        cases line with
        | assign tables key value =>
            obtain ⟨between, hwithin, hbuild⟩ := Option.bind_eq_some_iff.1 h
            obtain ⟨name, node, rfl⟩ := within_eq_set hwithin assign_eq_set
            exact ⟨_, _, _, hbuild⟩
        | header tables name =>
            obtain ⟨between, hdeclare, hbuild⟩ := Option.bind_eq_some_iff.1 h
            obtain ⟨name, node, rfl⟩ := declare_eq_set hdeclare
            exact ⟨_, _, _, hbuild⟩
      obtain ⟨here, name, node, hbuild⟩ := hset
      exact ih hbuild (nodup_keys_set hkeys name node)

/-- The tables of a document hold the values that its lines assign and no others, whichever way the
tables are written. No path is assigned twice. -/
theorem build_exact (h : build [] [] lines = some entries)
    (hlines : ∀ line ∈ lines, line.AssignsValue) :
    ((assigned [] lines).map Prod.fst).Nodup ∧
      ∀ path value, entries.value? path = some value ↔ (path, value) ∈ assigned [] lines := by
  obtain ⟨hnodup, -, hvalues⟩ := build_puts h trivial hlines
  refine ⟨hnodup, fun path value => ?_⟩
  rw [hvalues, value?_empty]
  simp

end Custody.Settings
