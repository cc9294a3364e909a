import Custody.Proofs.Check.Visit

/-! The table and the ledger tell the same of a token. Each symbol stands in the scope at its depth, so
a binding is found where its key says, and a token in the ledger is declared under its key as a
variable that holds a token of its kind. -/

namespace Custody

theorem Symbol.Revised.access?_eq {a b : Symbol} (h : Revised a b) : b.access? = a.access? := by
  obtain ⟨state, fields, rfl⟩ := h
  rcases a with ⟨name, kind, ty, visibility, depth, span⟩
  cases kind <;> rfl

theorem Scope.get?_append {kept new : Scope} {name : String} {symbol : Symbol}
    (h : kept.get? name = some symbol) : Scope.get? (kept ++ new) name = some symbol := by
  unfold get? at h ⊢
  rw [List.find?_append, h]
  rfl

theorem Scope.name_of_get? {scope : Scope} {name : String} {symbol : Symbol}
    (h : scope.get? name = some symbol) : symbol.name = name := by
  simpa using List.find?_some h

/-! ### Bindings in the table -/

namespace Table

variable {table before after : Table} {key : Binding} {p : Symbol → Prop}

/-- The symbol that is declared with this name at this depth. -/
def symbol? (table : Table) (key : Binding) : Option Symbol :=
  (table.scope? key.depth).bind (·.get? key.name)

/-- With this name at this depth, a symbol with the property `p` is declared. -/
def Binds (table : Table) (key : Binding) (p : Symbol → Prop) : Prop :=
  ∃ symbol, table.symbol? key = some symbol ∧ p symbol

theorem symbol?_eq_some {symbol : Symbol} :
    table.symbol? key = some symbol ↔
      ∃ scope, table.scope? key.depth = some scope ∧ scope.get? key.name = some symbol :=
  Option.bind_eq_some_iff

theorem depth_le_of_symbol? {symbol : Symbol} (h : table.symbol? key = some symbol) :
    key.depth ≤ table.depth := by
  obtain ⟨scope, hscope, -⟩ := symbol?_eq_some.1 h
  exact le_depth_of_scope? hscope

theorem symbol?_push (h : key.depth ≤ table.depth) : table.push.symbol? key = table.symbol? key := by
  rw [symbol?, scope?_push h, symbol?]

/-- A binding stays as long as its scope, and its symbol changes by the relation. -/
theorem Grown.symbol? {r : Symbol → Symbol → Prop} {added : Nat} {symbol : Symbol}
    (hr : Symbol.IsChange r) (h : Grown r added before after)
    (hsymbol : before.symbol? key = some symbol) :
    ∃ changed, after.symbol? key = some changed ∧ r symbol changed := by
  obtain ⟨scope, hscope, hget⟩ := symbol?_eq_some.1 hsymbol
  obtain ⟨scope', kept, new, hscope', hafter, -, hkept⟩ := h.scope?_le (le_depth_of_scope? hscope)
  obtain rfl : scope = scope' := Option.some.inj (hscope.symm.trans hscope')
  have hrel := Scope.get?_changed hr hkept key.name
  rw [hget] at hrel
  obtain ⟨changed, hchanged, hsymbol⟩ := exists_of_rel_some hrel
  exact ⟨changed, symbol?_eq_some.2 ⟨_, hafter, Scope.get?_append hchanged⟩, hsymbol⟩

theorem Aligned.key_of_symbol? (h : table.Aligned) {symbol : Symbol}
    (hsymbol : table.symbol? key = some symbol) : symbol.key = key := by
  obtain ⟨scope, hscope, hget⟩ := symbol?_eq_some.1 hsymbol
  have hdepth := h key.depth scope hscope symbol (List.mem_of_find?_eq_some hget)
  rw [Symbol.key, Scope.name_of_get? hget, hdepth]

theorem Aligned.symbol?_key (h : table.Aligned) {name : String} {symbol : Symbol}
    (hfind : table.find? name = some symbol) : table.symbol? symbol.key = some symbol := by
  obtain ⟨scope, hscope, hget⟩ := h.find?_eq_some hfind
  obtain rfl := Scope.name_of_get? hget
  exact symbol?_eq_some.2 ⟨scope, hscope, hget⟩

namespace Binds

theorem depth_le (h : table.Binds key p) : key.depth ≤ table.depth := by
  obtain ⟨symbol, hsymbol, -⟩ := h
  exact depth_le_of_symbol? hsymbol

theorem push (h : table.Binds key p) : table.push.Binds key p := by
  have hle := h.depth_le
  obtain ⟨symbol, hsymbol, hp⟩ := h
  exact ⟨symbol, (symbol?_push hle).trans hsymbol, hp⟩

/-- What does not depend on the state of a variable and the fields of a type stays. -/
theorem grown {added : Nat} (h : before.Binds key p)
    (hgrown : Grown Symbol.Revised added before after)
    (hp : ∀ a b, Symbol.Revised a b → p a → p b) : after.Binds key p := by
  obtain ⟨symbol, hsymbol, hpsymbol⟩ := h
  obtain ⟨changed, hchanged, hrevised⟩ := hgrown.symbol? Symbol.isChange_revised hsymbol
  exact ⟨changed, hchanged, hp symbol changed hrevised hpsymbol⟩

end Binds

end Table

/-! ### The tokens of the ledger -/

/-- The binding of a token is declared as a variable that holds a token of its kind. -/
def Table.Declares (table : Table) (token : Token) : Prop :=
  ∃ scope symbol, table.scope? token.key.depth = some scope ∧
    scope.get? token.key.name = some symbol ∧ symbol.access? = some token.access

namespace Table

variable {table before after : Table} {token : Token}

theorem declares_iff :
    table.Declares token ↔ table.Binds token.key (·.access? = some token.access) := by
  constructor
  · rintro ⟨scope, symbol, hscope, hget, haccess⟩
    exact ⟨symbol, symbol?_eq_some.2 ⟨scope, hscope, hget⟩, haccess⟩
  · rintro ⟨symbol, hsymbol, haccess⟩
    obtain ⟨scope, hscope, hget⟩ := symbol?_eq_some.1 hsymbol
    exact ⟨scope, symbol, hscope, hget, haccess⟩

theorem Declares.push (h : table.Declares token) : table.push.Declares token :=
  declares_iff.2 (declares_iff.1 h).push

theorem Declares.grown {added : Nat} (h : before.Declares token)
    (hgrown : Grown Symbol.Revised added before after) : after.Declares token :=
  declares_iff.2 ((declares_iff.1 h).grown hgrown fun _ _ hrevised haccess =>
    hrevised.access?_eq.trans haccess)

end Table

namespace State

/-- The ledger and the table agree. -/
structure Coherent (s : State) : Prop where
  sound : s.Sound
  aligned : s.table.Aligned
  declares : ∀ token ∈ s.ledger.tokens, s.table.Declares token

variable {s t : State}

theorem Coherent.openScope (h : s.Coherent) : s.openScope.Coherent :=
  ⟨h.sound.openScope, h.aligned.push, fun token ht => (h.declares token ht).push⟩

theorem Coherent.kept {added : Nat} (h : s.Coherent) (hkept : Kept Symbol.Revised added s t) :
    t.Coherent where
  sound := hkept.sound h.sound
  aligned := h.aligned.grown Symbol.isChange_revised hkept.table
  declares token ht := by
    rw [hkept.ledger] at ht
    exact (h.declares token ht).grown hkept.table

/-- The scope of a token has nothing else in it. -/
theorem scope?_openToken (s : State) (token : Ident) (kind : Access) (inner : Ty) :
    (s.openToken token kind inner).table.scope? (s.depth + 1) =
      some [Symbol.ofToken token kind inner (s.depth + 1)] := by
  have hscope := Table.scope?_depth (s.openToken token kind inner).table
  rw [openToken, Table.depth_append, Table.depth_push, Table.current_append, Table.current_push,
    List.nil_append] at hscope
  exact hscope

end State

namespace Check

variable {kind : Access} {source token : Ident} {s t : State} {opened : Option Binding}

/-- The scope of an access declares the token that has been entered for it. -/
theorem Opened.coherent (h : Opened kind source token s opened t) (hs : s.Coherent) :
    t.Coherent := by
  have hgrown := h.grown Symbol.isChange_revised
  have hopen := hs.openScope
  refine ⟨h.sound hs.sound, hopen.aligned.grown Symbol.isChange_revised hgrown, ?_⟩
  cases h with
  | refused inner new hnew =>
      intro entry hentry
      exact (hopen.declares entry hentry).grown hgrown
  | entered symbol key ledger new hnew hfind hvar hbegin =>
      intro entry hentry
      obtain ⟨rfl, htokens, -⟩ := Ledger.begin_eq_ok hbegin
      rw [htokens, List.mem_append, List.mem_singleton] at hentry
      rcases hentry with hentry | rfl
      · exact (hopen.declares entry (List.mem_filter.1 hentry).1).grown hgrown
      · exact ⟨_, Symbol.ofToken token kind symbol.ty.strip (s.depth + 1),
          s.scope?_openToken token kind symbol.ty.strip,
          by simp [Scope.get?, Symbol.ofToken, Symbol.var], rfl⟩

theorem invariant_coherent (env : Env) :
    Invariant env (Keeping Symbol.Revised) State.Coherent where
  frame := declFrame_keeping
  keep hs h := hs.kept (h hs.sound)
  scope hs := hs.openScope
  access h hs := h.coherent hs
  mode hs := ⟨hs.sound, hs.aligned, hs.declares⟩
  loop hs := ⟨hs.sound, hs.aligned, hs.declares⟩
  routine hs := ⟨hs.sound, hs.aligned, hs.declares⟩

end Check

namespace Linked

variable {settings : Settings} {linked : Linked} {s : State}

theorem aligned_initial : Table.initial.Aligned := by
  intro depth scope hscope symbol hsymbol
  have hle := Table.le_depth_of_scope? hscope
  obtain rfl : depth = 0 := Nat.le_zero.1 hle
  cases hscope
  have hbuiltins : ∀ symbol ∈ Table.builtins, symbol.depth = 0 := by decide
  exact hbuiltins symbol hsymbol

theorem coherent_start (settings : Settings) (linked : Linked) :
    (linked.start settings).Coherent := by
  obtain ⟨n, hkept⟩ := kept_loadPrelude settings linked
  have hinitial : State.Coherent initial :=
    ⟨Ledger.within_empty, aligned_initial, by simp [initial]⟩
  exact (hinitial.kept hkept).openScope

theorem Reachable.coherent (h : Reachable settings linked s) : s.Coherent :=
  h.of_invariant (Check.invariant_coherent _) (coherent_start settings linked)

end Linked

/-! ### The use of tokens -/

namespace State.Coherent

variable {s : State} {name : String} {symbol : Symbol} {kind : Access}

/-- A token that is alive is of the kind its binding says. -/
theorem access?_eq (h : s.Coherent) (hfind : s.table.find? name = some symbol) {token : Token}
    (htoken : s.ledger.token? symbol.key = some token) :
    token.key = symbol.key ∧ symbol.access? = some token.access := by
  have hkey : token.key = symbol.key := by
    simpa using List.find?_some htoken
  obtain ⟨scope, found, hscope, hget, haccess⟩ :=
    h.declares token (List.mem_of_find?_eq_some htoken)
  obtain ⟨scope', hscope', hget'⟩ := h.aligned.find?_eq_some hfind
  obtain rfl := Scope.name_of_get? hget'
  rw [hkey] at hscope hget
  have hsame : scope = scope' := Option.some.inj (hscope.symm.trans hscope')
  rw [hsame] at hget
  have hfound : found = symbol := Option.some.inj (hget.symm.trans hget')
  exact ⟨hkey, hfound ▸ haccess⟩

/-- What holds no token is not a token that is alive. -/
theorem token?_of_access? (h : s.Coherent) (hfind : s.table.find? name = some symbol)
    (haccess : symbol.access? = none) : s.ledger.token? symbol.key = none := by
  cases htoken : s.ledger.token? symbol.key with
  | none => rfl
  | some token =>
      have hsome := (h.access?_eq hfind htoken).2
      rw [haccess] at hsome
      cases hsome

/-- The use of a variable that holds a token is allowed if and only if the variable has its value, is
not held, and the rules for tokens accept the use. -/
theorem checkUse_token (h : s.Coherent) (hfind : s.table.find? name = some symbol)
    (haccess : symbol.access? = some kind) (use : Use) :
    s.checkUse symbol use = .ok () ↔
      symbol.isMoved = false ∧ s.ledger.isHeld symbol.key = false ∧
        Ledger.checkTokenUse symbol.name kind symbol.depth s.depth use
          (s.modes.isActive .usurping) = .ok () := by
  unfold State.checkUse
  rw [← h.sound.lastHold?_eq_none_iff]
  cases hmoved : symbol.isMoved with
  | true => simp
  | false =>
      cases hlast : s.ledger.lastHold? symbol.key with
      | some hold => simp [Ledger.checkUse, hlast]
      | none =>
          cases htoken : s.ledger.token? symbol.key with
          | none =>
              simp only [Ledger.checkUse, hlast, htoken, haccess]
              cases Ledger.checkTokenUse symbol.name kind symbol.depth s.depth use
                (s.modes.isActive .usurping) <;> simp
          | some token =>
              obtain ⟨hkey, htokenAccess⟩ := h.access?_eq hfind htoken
              obtain rfl : kind = token.access := Option.some.inj (haccess.symm.trans htokenAccess)
              simp only [Ledger.checkUse, hlast, htoken, hkey]
              simp only [Symbol.key]
              cases Ledger.checkTokenUse symbol.name token.access symbol.depth s.depth use
                (s.modes.isActive .usurping) <;> simp

/-- Reading is the weakest use: nothing but a move or a hold forbids it. -/
theorem checkUse_read (h : s.Coherent) (hfind : s.table.find? name = some symbol) :
    s.checkUse symbol .read = .ok () ↔
      symbol.isMoved = false ∧ s.ledger.isHeld symbol.key = false := by
  cases haccess : symbol.access? with
  | some kind =>
      obtain ⟨scope, hscope, -⟩ := h.aligned.find?_eq_some hfind
      have hdepth : ¬ s.depth < symbol.depth := Nat.not_lt.2 (Table.le_depth_of_scope? hscope)
      rw [h.checkUse_token hfind haccess]
      simp [Ledger.checkTokenUse, hdepth]
  | none =>
      have htoken := h.token?_of_access? hfind haccess
      rw [← h.sound.lastHold?_eq_none_iff]
      cases hmoved : symbol.isMoved <;>
        cases hlast : s.ledger.lastHold? symbol.key <;>
          simp [State.checkUse, Ledger.checkUse, hmoved, hlast, htoken, haccess]

/-- Writing asks in addition for a token that writes, if the variable holds one. -/
theorem checkUse_write (h : s.Coherent) (hfind : s.table.find? name = some symbol) :
    s.checkUse symbol .write = .ok () ↔
      symbol.isMoved = false ∧ s.ledger.isHeld symbol.key = false ∧
        ∀ kind, symbol.access? = some kind → kind.writes = true := by
  cases haccess : symbol.access? with
  | some kind =>
      obtain ⟨scope, hscope, -⟩ := h.aligned.find?_eq_some hfind
      have hdepth : ¬ s.depth < symbol.depth := Nat.not_lt.2 (Table.le_depth_of_scope? hscope)
      rw [h.checkUse_token hfind haccess]
      simp [Ledger.checkTokenUse, hdepth]
  | none =>
      have htoken := h.token?_of_access? hfind haccess
      rw [← h.sound.lastHold?_eq_none_iff]
      cases hmoved : symbol.isMoved <;>
        cases hlast : s.ledger.lastHold? symbol.key <;>
          simp [State.checkUse, Ledger.checkUse, hmoved, hlast, htoken, haccess]

end State.Coherent

end Custody
