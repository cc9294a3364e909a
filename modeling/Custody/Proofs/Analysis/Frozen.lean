import Custody.Proofs.Analysis.Tracked

/-! Variables whose state is frozen. No use of a variable is allowed while it is moved or held, and a
value is taken from a variable only after an allowed use. So checking leaves such a variable exactly
as it is, with one exception: a moved variable has a value again once it is assigned to. -/

namespace Custody

/-- The same symbol up to the state of a variable, and entirely the same if it has this key. -/
def Symbol.Sparing (key : Binding) (before after : Symbol) : Prop :=
  Similar before after ∧ (before.key = key → after = before)

theorem Symbol.isChange_sparing (key : Binding) : IsChange (Sparing key) where
  refl a := ⟨similar_refl a, fun _ => rfl⟩
  trans {a b c} hab hbc := by
    refine ⟨hab.1.trans hbc.1, fun hkey => ?_⟩
    obtain rfl := hab.2 hkey
    exact hbc.2 hkey
  revised h := h.1.revised

theorem Symbol.sparing_setState {key : Binding} {state : Holding} {symbol : Symbol}
    (h : symbol.key ≠ key) : Sparing key symbol (symbol.setState state) :=
  ⟨similar_setState state symbol, fun hkey => absurd hkey h⟩

namespace State

variable {key : Binding} {symbol found : Symbol} {name : String} {s t : State} {n : Nat}

/-- A variable that may be used is neither moved nor held. -/
theorem usable_of_checkUse (hs : s.Sound) {use : Use} (h : s.checkUse symbol use = .ok ()) :
    symbol.isMoved = false ∧ s.ledger.isHeld symbol.key = false := by
  rw [← hs.lastHold?_eq_none_iff]
  unfold checkUse at h
  split at h
  · cases h
  · rename_i hmoved
    refine ⟨by simpa using hmoved, ?_⟩
    cases hledger : s.ledger.checkUse symbol.key s.depth use (s.modes.isActive .usurping) with
    | error violation => simp [hledger] at h
    | ok _ => exact Ledger.lastHold?_of_checkUse hledger

/-- The expression is, up to parentheses, a name that stands for the binding. -/
def Resolves (s : State) (expr : Expr) (key : Binding) : Prop :=
  ∃ name symbol, expr.asIdent = some name ∧ s.table.find? name = some symbol ∧ symbol.key = key

/-- The binding is declared by this symbol and must not be used: it is moved or held. -/
structure Unusable (key : Binding) (symbol : Symbol) (s : State) : Prop where
  sound : s.Sound
  aligned : s.table.Aligned
  declared : s.table.symbol? key = some symbol
  unusable : symbol.isMoved = true ∨ s.ledger.isHeld key = true

namespace Unusable

/-- What may be used is another variable. -/
theorem key_ne (h : s.Unusable key symbol) (hfind : s.table.find? name = some found) {use : Use}
    (huse : s.checkUse found use = .ok ()) : found.key ≠ key := by
  rintro rfl
  obtain rfl : found = symbol :=
    Option.some.inj ((h.aligned.symbol?_key hfind).symm.trans h.declared)
  obtain ⟨hmoved, hheld⟩ := usable_of_checkUse h.sound huse
  simpa [hmoved, hheld] using h.unusable

theorem symbol?_kept (h : s.Unusable key symbol) (hkept : Kept (Symbol.Sparing key) n s t) :
    t.table.symbol? key = some symbol := by
  obtain ⟨changed, hchanged, -, hsame⟩ :=
    hkept.table.symbol? (Symbol.isChange_sparing key) h.declared
  rw [hchanged, hsame (h.aligned.key_of_symbol? h.declared)]

theorem kept (h : s.Unusable key symbol) (hkept : Kept (Symbol.Sparing key) n s t) :
    t.Unusable key symbol where
  sound := hkept.sound h.sound
  aligned := h.aligned.grown (Symbol.isChange_sparing key) hkept.table
  declared := h.symbol?_kept hkept
  unusable := by
    rw [hkept.ledger]
    exact h.unusable

theorem openScope (h : s.Unusable key symbol) : s.openScope.Unusable key symbol where
  sound := h.sound.openScope
  aligned := h.aligned.push
  declared := (Table.symbol?_push (Table.depth_le_of_symbol? h.declared)).trans h.declared
  unusable := h.unusable

/-- The token of an access stands in a new scope, and what is held stays held. -/
theorem opened {kind : Access} {source token : Ident} {opened : Option Binding}
    (h : s.Unusable key symbol) (hopened : Check.Opened kind source token s opened t) :
    t.Unusable key symbol := by
  have hr := Symbol.isChange_sparing key
  have hgrown := hopened.grown hr
  have hopen := h.openScope
  obtain ⟨changed, hchanged, -, hsame⟩ := hgrown.symbol? hr hopen.declared
  refine ⟨hopened.sound h.sound, hopen.aligned.grown hr hgrown, ?_,
    h.unusable.imp_right hopened.isHeld⟩
  rw [hchanged, hsame (h.aligned.key_of_symbol? h.declared)]

end Unusable

end State

/-! ### The frame -/

namespace Check

variable {env : Env} {key : Binding} {symbol : Symbol} {s t : State} {target value : Expr}

/-- Whatever else changes, a binding that must not be used is left as it is. -/
def Freezing (key : Binding) (symbol : Symbol) (n : Nat) (s t : State) : Prop :=
  s.Unusable key symbol → State.Kept (Symbol.Sparing key) n s t

theorem exprFrame_freezing : ExprFrame env (Freezing key symbol) where
  refl s _ := .refl (Symbol.isChange_sparing key) s
  trans hst htu h := .trans (Symbol.isChange_sparing key) (hst h) (htu (h.kept (hst h)))
  weaken hmn hst h := (hst h).weaken hmn
  report hfault _ := .reports (Symbol.isChange_sparing key) (List.forall_mem_singleton.2 hfault)
  move _ hfind _ hallowed h := by
    refine .of_table (h.aligned.update (Symbol.isChange_sparing key) hfind fun a ha => ?_)
    exact Symbol.sparing_setState (ha ▸ h.key_ne hfind hallowed)
  access hopened htu h :=
    (hopened.kept_endAccess (Symbol.isChange_sparing key) h.sound
      (htu (h.opened hopened))).closeScope h.sound

theorem blockFrame_freezing : BlockFrame env (Freezing key symbol) where
  toExprFrame := exprFrame_freezing
  declare hdeclare _ := .declare (Symbol.isChange_sparing key) hdeclare
  scope hst h := (hst h.openScope).closeScope h.sound
  mode hst h := (hst ⟨h.sound, h.aligned, h.declared, h.unusable⟩).leaveMode
  loop hst h := (hst ⟨h.sound, h.aligned, h.declared, h.unusable⟩).leaveLoop

/-! ### Assignments -/

/-- The name that is assigned to stands for a variable that is not held. -/
theorem assignTarget_eq_ok {name : String} {place : Ty × Nat} (hs : s.Sound)
    (h : assignTarget target env s = (.ok place, t)) (hname : target.asIdent = some name) :
    ∃ symbol, s.table.find? name = some symbol ∧ symbol.isVar = true ∧
      s.ledger.isHeld symbol.key = false := by
  unfold assignTarget at h
  split at h
  · obtain rfl := Option.some.inj hname
    obtain ⟨-, symbol, hfind, hvar, -, hhold, -⟩ := checkTarget_eq_ok h
    exact ⟨symbol, hfind, hvar, hs.lastHold?_eq_none_iff.1 hhold⟩
  · obtain ⟨span, hplace⟩ := checkPlace_of_asIdent hname
    rw [hplace] at h
    obtain ⟨-, symbol, hfind, hvar, hallowed, -⟩ := checkPlace_ident_eq_ok h
    exact ⟨symbol, hfind, hvar, (State.usable_of_checkUse hs hallowed).2⟩

theorem storeValue_eq_ok {name : String} (hs : s.Sound)
    (h : storeValue target value env s = (.ok (), t)) (hname : target.asIdent = some name) :
    ∃ symbol, s.table.find? name = some symbol ∧ symbol.isVar = true ∧
      s.ledger.isHeld symbol.key = false := by
  obtain ⟨place, u, htarget, -⟩ := bind_eq_ok h
  exact assignTarget_eq_ok hs htarget hname

/-- An assignment to anything else leaves a binding that must not be used as it is. -/
theorem checkAssign_freezes
    (hother : (storeValue target value env s).1 = .ok () → ¬ s.Resolves target key) :
    Keeps env (Freezing key symbol 0) (checkAssign target value) s := by
  refine ⟨fun h => ?_, (checkAssign_keeps stmtFrame_similar target value).fault⟩
  have hr := Symbol.isChange_sparing key
  have hstore : Keeps env (Freezing key symbol 0) (storeValue target value) s :=
    storeValue_keeps exprFrame_freezing target value
  rw [checkAssign_eq, bind_apply]
  rcases hrun : storeValue target value env s with ⟨cause | _, t⟩
  · exact hstore.related hrun h
  have hkept := hstore.related hrun h
  rcases revive_apply target env t with hrevive | ⟨name, found, hname, hfind, -, hrevive⟩
  · simp only [hrevive]
    exact hkept
  · simp only [hrevive]
    refine .trans hr hkept (.of_table ((h.kept hkept).aligned.update hr hfind fun a ha => ?_))
    refine Symbol.sparing_setState fun hkey => hother (by rw [hrun]) ?_
    -- the target stands for the same binding as before the assignment
    obtain ⟨before, hbefore, hsparing⟩ := hkept.table.find?_before hr hfind
    exact ⟨name, before, hname, hbefore, hsparing.1.key_eq.symm.trans (ha.symm.trans hkey)⟩

theorem invariant_held (env : Env) (key : Binding) :
    Invariant env (Keeping Symbol.Revised) fun s => s.Sound ∧ s.ledger.isHeld key = true where
  frame := declFrame_keeping
  keep hs h := by
    have hkept := h hs.1
    exact ⟨hkept.sound hs.1, hkept.ledger ▸ hs.2⟩
  scope hs := ⟨hs.1.openScope, hs.2⟩
  access h hs := ⟨h.sound hs.1, h.isHeld hs.2⟩
  mode hs := hs
  loop hs := hs
  routine hs := hs

/-- What is held is not assigned to. -/
theorem guardedFrame_held :
    GuardedFrame env (Freezing key symbol) fun _ s => s.Sound ∧ s.ledger.isHeld key = true where
  toBlockFrame := blockFrame_freezing
  parts hpart hs := (invariant_held env key).visits hpart hs
  assign {span target value s} hs := by
    refine checkAssign_freezes fun hok hresolves => ?_
    obtain ⟨name, found, hname, hfind, rfl⟩ := hresolves
    obtain ⟨other, hother, -, hfree⟩ := storeValue_eq_ok hs.1 (Prod.ext hok rfl) hname
    obtain rfl : found = other := Option.some.inj (hfind.symm.trans hother)
    rw [hs.2] at hfree
    cases hfree

/-- `Assigns env task s target value t`: checking `task` in the state `s` leads to an assignment of
`value` to `target`, which is checked in the state `t`. -/
inductive Assigns (env : Env) : Task → State → Expr → Expr → State → Prop
  | here {span target value s} : Assigns env (.stmt (.assign span target value)) s target value s
  | inPart {task s part u target value t} (hpart : Visits env task s part u)
      (hrest : Assigns env part u target value t) : Assigns env task s target value t

theorem guardedFrame_unassigned :
    GuardedFrame env (Freezing key symbol) fun task s =>
      ∀ target value t, Assigns env task s target value t → ¬ t.Resolves target key where
  toBlockFrame := blockFrame_freezing
  parts hpart hs target value t hrest := hs target value t (.inPart hpart hrest)
  assign {_ target value s} hs := checkAssign_freezes fun _ => hs target value s .here

/-- What is assigned to has a value afterwards. -/
theorem find?_revive {name : String} (hname : target.asIdent = some name)
    (hfind : s.table.find? name = some symbol) :
    (revive target env s).2.table.find? name = some (symbol.setState .live) := by
  unfold revive
  cases hmoved : symbol.isMoved with
  | true => simp [hname, hfind, hmoved, setState_of_find? hfind, Table.find?_update]
  | false => simp [hname, hfind, hmoved, Symbol.setState_live]

theorem checkAssign_revives {name : String} (hs : s.Sound) (hname : target.asIdent = some name)
    (hok : (checkAssign target value env s).1 = .ok ()) :
    ∃ symbol, s.table.find? name = some symbol ∧ symbol.isVar = true ∧
      (checkAssign target value env s).2.table.find? name = some (symbol.setState .live) := by
  rw [checkAssign_eq] at hok ⊢
  obtain ⟨_, t, hstore, hrevive⟩ := bind_eq_ok (Prod.ext hok rfl)
  obtain ⟨symbol, hfind, hvar, -⟩ := storeValue_eq_ok hs hstore hname
  have hkept := (storeValue_keeps stmtFrame_similar.toExprFrame target value).related hstore hs
  have hrel := hkept.table.find?_changed Symbol.isChange_similar name
  rw [hfind] at hrel
  obtain ⟨changed, hchanged, state, rfl⟩ := Table.exists_of_rel_some hrel
  have hlive : (revive target env t).2.table.find? name = _ := find?_revive hname hchanged
  rw [hrevive, Symbol.setState_setState] at hlive
  exact ⟨symbol, hfind, hvar, hlive⟩

end Check

/-! ### Analyses -/

namespace Linked

open Check

variable {settings : Settings} {linked : Linked} {s : State} {key : Binding}

/-- A program with a routine that hands the value of its variable `b` on to `c`, and then would hand it
on from `c` to `d` while `c` is viewed. -/
def relaying : Linked where
  prelude := []
  items :=
    [.decl (.type { semantics := .reference, name := ⟨"Box", {}⟩, params := [], fields := [] }),
      .decl (.routine {
        span := {}
        name := ⟨"f", {}⟩
        params := []
        result := none
        body := some
          [.var {} {
              name := ⟨"b", {}⟩
              mutable := true
              init := some (.construct {} ⟨"Box", {}⟩ []) },
            .var {} { name := ⟨"c", {}⟩, mutable := false, init := some (.ident {} "b") },
            .access {} .viewing ⟨"c", {}⟩ ⟨"v", {}⟩
              [.var {} { name := ⟨"d", {}⟩, mutable := false, init := some (.ident {} "c") }]] })]

/-- A state in the routine of `relaying`, with the scopes above the one of the program and the ledger. -/
def inRelaying (scopes : List Scope) (ledger : Ledger) : State :=
  let box : Symbol := { Symbol.composite .reference "Box" [] [] {} with depth := 1 }
  let f : Symbol := { Symbol.routine "f" (.routine [] .blank) false {} with depth := 1 }
  { table := { root := Table.builtins, inner := scopes ++ [[box, f]] }
    ledger
    result := some .blank }

/-- The variables `b` and `c` in `relaying`. -/
def boxOf (name : String) (mutable : Bool) : Symbol :=
  { Symbol.var name (.plain "Box") mutable {} with depth := 2 }

/-- The state in which `c` is declared in `relaying`. -/
def boxed : State :=
  inRelaying [[boxOf "b" true]] {}

/-- The state in which `c` is viewed in `relaying`. -/
def relayed : State :=
  inRelaying [[(boxOf "b" true).setState .moved, boxOf "c" false]] {}

/-- The state in which the body of the access in `relaying` is checked. -/
def relayedViewed : State :=
  let v : Symbol := { Symbol.var "v" (.token .viewing (.plain "Box")) false {} with depth := 3 }
  inRelaying [[v], [(boxOf "b" true).setState .moved, boxOf "c" false]]
    { tokens := [⟨⟨"v", 3⟩, ⟨"c", 2⟩, .viewing, {}⟩]
      holds := [(⟨"c", 2⟩, [⟨⟨"v", 3⟩, .viewing⟩])] }

theorem reachable_boxed : Reachable {} relaying boxed :=
  ⟨_, .visit (.visit (.visit .start (.otherItems rfl)) (.routineBody rfl rfl rfl)) (.otherStmts rfl)⟩

theorem visited_relayed : ∃ span body,
    Visited {} relaying (.stmts [.access span .viewing ⟨"c", {}⟩ ⟨"v", {}⟩ body]) relayed :=
  ⟨_, _, .visit (.visit (.visit (.visit .start (.otherItems rfl)) (.routineBody rfl rfl rfl))
    (.otherStmts rfl)) (.otherStmts rfl)⟩

theorem reachable_relayed : Reachable {} relaying relayed := by
  obtain ⟨span, body, h⟩ := visited_relayed
  exact ⟨_, h⟩

theorem reachable_relayedViewed : Reachable {} relaying relayedViewed := by
  obtain ⟨span, body, h⟩ := visited_relayed
  exact ⟨_, .visit (.visit h .firstStmt) (.accessBody rfl)⟩

/-- A variable that is held when a piece of a program is checked is declared, and no expression and no
statement changes anything about it, whatever is reported. -/
theorem held_variable_is_frozen (hs : Reachable settings linked s)
    (hheld : s.ledger.isHeld key = true) :
    ∃ symbol, s.table.symbol? key = some symbol ∧ symbol.isVar = true ∧
      (∀ expr use,
        (checkExpr expr use (linked.env settings) s).2.table.symbol? key = some symbol) ∧
      ∀ stmt, (checkStmt stmt (linked.env settings) s).2.table.symbol? key = some symbol := by
  have htracked := hs.tracked
  obtain ⟨token, htoken, rfl⟩ := htracked.isHeld_iff.1 hheld
  obtain ⟨symbol, hsymbol, hvar⟩ := htracked.source token htoken
  have h : s.Unusable token.source symbol :=
    ⟨htracked.sound, htracked.aligned, hsymbol, .inr hheld⟩
  refine ⟨symbol, hsymbol, hvar, fun expr use => ?_, fun stmt => ?_⟩
  · exact h.symbol?_kept ((checkExpr_keeps exprFrame_freezing expr use s).left h)
  · exact h.symbol?_kept
      ((checkStmt_keeps_of guardedFrame_held stmt s ⟨htracked.sound, hheld⟩).left h)

/-- In particular where the value of `c` would be taken while `c` is viewed: this is reported, and `c`
keeps its value. -/
theorem held_variable_is_frozen_relayed :
    let taking : Stmt :=
      .var {} { name := ⟨"d", {}⟩, mutable := false, init := some (.ident {} "c") }
    Reachable {} relaying relayedViewed ∧ relayedViewed.ledger.isHeld ⟨"c", 2⟩ = true ∧
      (checkStmt taking (relaying.env {}) relayedViewed).2.diagnostics.length = 1 ∧
      (checkStmt taking (relaying.env {}) relayedViewed).2.table.symbol? ⟨"c", 2⟩ =
        some (boxOf "c" false) := by
  intro taking
  have hheld : relayedViewed.ledger.isHeld ⟨"c", 2⟩ = true := rfl
  obtain ⟨symbol, hsymbol, -, -, hstmt⟩ := held_variable_is_frozen reachable_relayedViewed hheld
  exact ⟨reachable_relayedViewed, hheld, rfl, (hstmt taking).trans hsymbol.symm⟩

/-- A block that declares a variable `b` of its own and assigns to it. -/
def shadowing : Stmt :=
  .block {}
    [.var {} { name := ⟨"b", {}⟩, mutable := true, init := some (.literal {} (.int 1 none)) },
      .assign {} (.ident {} "b") (.literal {} (.int 2 none))]

theorem shadowing_spares {target value : Expr} {t : State}
    (h : Assigns (relaying.env {}) (.stmt shadowing) relayed target value t) :
    ¬ t.Resolves target ⟨"b", 2⟩ := by
  cases h with
  | inPart hblock h =>
  cases hblock
  cases h with
  | inPart hstmt h =>
  cases hstmt with
  | firstStmt =>
      cases h with
      | inPart hinit h =>
      cases hinit with
      | init hinit htype =>
          cases hinit
          cases h with
          | inPart hpart => cases hpart
  | otherStmts hvar =>
      cases h with
      | inPart hstmt h =>
      cases hstmt with
      | firstStmt =>
          cases h with
          | here =>
              -- the name stands for the variable of the block
              cases hvar
              rintro ⟨name, symbol, hname, hfind, hkey⟩
              cases hname
              cases hfind
              cases hkey
          | inPart hpart h =>
              cases hpart with
              | target hplace => exact absurd rfl (hplace _ _)
              | assigned htarget =>
                  cases h with
                  | inPart hpart => cases hpart
      | otherStmts hassign =>
          cases h with
          | inPart hpart => cases hpart

/-- A variable that is moved when a piece of a program is checked stays as it is along every
expression, and along every statement that leads to no assignment to it. An assignment to the name of
a variable that is not cut short leaves that variable with a value, whatever its value was before and
whatever is assigned. -/
theorem moved_until_assigned (hs : Reachable settings linked s) :
    (∀ key symbol, s.table.symbol? key = some symbol → symbol.isMoved = true →
      (∀ expr use,
        (checkExpr expr use (linked.env settings) s).2.table.symbol? key = some symbol) ∧
      ∀ stmt,
        (∀ target value t, Assigns (linked.env settings) (.stmt stmt) s target value t →
          ¬ t.Resolves target key) →
        (checkStmt stmt (linked.env settings) s).2.table.symbol? key = some symbol) ∧
    ∀ span target value name, target.asIdent = some name →
      (checkStmt (.assign span target value) (linked.env settings) s).1 = .ok () →
      ∃ symbol, s.table.find? name = some symbol ∧ symbol.isVar = true ∧
        (checkStmt (.assign span target value) (linked.env settings) s).2.table.find? name =
          some (symbol.setState .live) := by
  have hcoherent := hs.coherent
  refine ⟨fun key symbol hsymbol hmoved => ?_, fun span target value name hname hok => ?_⟩
  · have h : s.Unusable key symbol :=
      ⟨hcoherent.sound, hcoherent.aligned, hsymbol, .inl hmoved⟩
    refine ⟨fun expr use => ?_, fun stmt hunassigned => ?_⟩
    · exact h.symbol?_kept ((checkExpr_keeps exprFrame_freezing expr use s).left h)
    · exact h.symbol?_kept
        ((checkStmt_keeps_of guardedFrame_unassigned stmt s hunassigned).left h)
  · rw [checkStmt] at hok ⊢
    exact checkAssign_revives hcoherent.sound hname hok

/-- In particular along an assignment to another variable of the same name, and where a variable is
assigned to itself. -/
theorem moved_until_assigned_relayed :
    let same : Stmt := .assign {} (.ident {} "b") (.ident {} "b")
    (Reachable {} relaying relayed ∧
      (checkStmt shadowing (relaying.env {}) relayed).2.table.symbol? ⟨"b", 2⟩ =
        some ((boxOf "b" true).setState .moved)) ∧
    Reachable {} relaying boxed ∧ (checkStmt same (relaying.env {}) boxed).1 = .ok () ∧
      (checkStmt same (relaying.env {}) boxed).2.table.find? "b" = some (boxOf "b" true) := by
  intro same
  obtain ⟨hmoved, -⟩ := moved_until_assigned reachable_relayed
  obtain ⟨-, hstmt⟩ := hmoved ⟨"b", 2⟩ ((boxOf "b" true).setState .moved) rfl rfl
  obtain ⟨-, hassigned⟩ := moved_until_assigned reachable_boxed
  obtain ⟨symbol, hfind, -, hlive⟩ := hassigned {} (.ident {} "b") (.ident {} "b") "b" rfl rfl
  obtain rfl : boxOf "b" true = symbol := Option.some.inj hfind
  exact ⟨⟨reachable_relayed, hstmt shadowing fun _ _ _ => shadowing_spares⟩, reachable_boxed, rfl, hlive⟩

end Linked

end Custody
