import Custody.Proofs.Check.Decl
import Custody.Proofs.Ledger
import Custody.Proofs.Scope.Table

/-! Checking restores what it changes for a while. Whatever is checked, afterwards the ledger, the
modes, the loops and the result are what they were, and the table has only grown. This needs that
no token is in the ledger that is declared deeper than the innermost scope: a token that is declared
in a new scope is then new to the ledger, and ending its access undoes exactly what it entered. -/

namespace Custody

namespace State

/-- No token is declared deeper than the innermost scope, and what is listed as held is held. -/
def Sound (s : State) : Prop :=
  s.ledger.Within s.depth

theorem Sound.openScope {s : State} (h : s.Sound) : s.openScope.Sound :=
  h.mono (Nat.le_succ s.depth)

/-- What checking leaves of a state. The relation `r` tells how symbols may change, and `added` how
many symbols the innermost scope may gain. -/
structure Kept (r : Symbol → Symbol → Prop) (added : Nat) (s t : State) : Prop where
  table : Table.Grown r added s.table t.table
  ledger : t.ledger = s.ledger
  modes : t.modes = s.modes
  loops : t.loops = s.loops
  result : t.result = s.result
  diagnostics : ∃ new, t.diagnostics = s.diagnostics ++ new ∧ ∀ d ∈ new, d.fault.OfProgram

namespace Kept

variable {r : Symbol → Symbol → Prop} {m n : Nat} {s t u : State}

theorem depth_eq (h : Kept r n s t) : t.depth = s.depth :=
  h.table.depth_eq

theorem sound (h : Kept r n s t) (hs : s.Sound) : t.Sound := by
  unfold Sound
  rw [h.ledger, h.depth_eq]
  exact hs

theorem refl (hr : Symbol.IsChange r) (s : State) : Kept r 0 s s :=
  ⟨.refl hr s.table, rfl, rfl, rfl, rfl, [], by simp, by simp⟩

theorem trans (hr : Symbol.IsChange r) (hst : Kept r m s t) (htu : Kept r n t u) :
    Kept r (m + n) s u := by
  obtain ⟨first, hfirst, hblame⟩ := hst.diagnostics
  obtain ⟨second, hsecond, hblame'⟩ := htu.diagnostics
  refine ⟨.trans hr hst.table htu.table, htu.ledger.trans hst.ledger, htu.modes.trans hst.modes,
    htu.loops.trans hst.loops, htu.result.trans hst.result, first ++ second, ?_,
    List.forall_mem_append.2 ⟨hblame, hblame'⟩⟩
  rw [hsecond, hfirst, List.append_assoc]

theorem weaken (hmn : m ≤ n) (h : Kept r m s t) : Kept r n s t :=
  { h with table := h.table.weaken hmn }

theorem mono {r' : Symbol → Symbol → Prop} (hrr : ∀ a b, r a b → r' a b) (h : Kept r n s t) :
    Kept r' n s t :=
  { h with table := h.table.mono hrr }

theorem of_table {table : Table} (h : Table.Grown r n s.table table) : Kept r n s { s with table } :=
  ⟨h, rfl, rfl, rfl, rfl, [], by simp, by simp⟩

theorem reports (hr : Symbol.IsChange r) {new : List Diagnostic}
    (hnew : ∀ d ∈ new, d.fault.OfProgram) : Kept r 0 s (s.reports new) :=
  ⟨.refl hr s.table, rfl, rfl, rfl, rfl, new, rfl, hnew⟩

/-- What is done in a scope of its own is kept when the scope is closed. -/
theorem closeScope (hs : s.Sound) (h : Kept r n s.openScope t) :
    Kept r 0 s (t.closeScope (s.depth + 1)) := by
  obtain ⟨popped, hpop, hgrown⟩ := h.table.pop
  have hretire : (t.ledger.retire (s.depth + 1)).2 = s.ledger := by
    rw [h.ledger]
    exact Ledger.retire_of_within hs (Nat.lt_succ_self s.depth)
  have hclose : t.closeScope (s.depth + 1) = { t with ledger := s.ledger, table := popped } := by
    simp only [State.closeScope, hpop, hretire]
  rw [hclose]
  exact ⟨hgrown, rfl, h.modes, h.loops, h.result, h.diagnostics⟩

theorem leaveMode {mode : Mode} (h : Kept r n (s.enterMode mode) t) :
    Kept r n s (t.leaveMode mode) := by
  refine ⟨h.table, h.ledger, ?_, h.loops, h.result, h.diagnostics⟩
  rw [State.leaveMode, h.modes, State.enterMode, Modes.leave_enter]

theorem leaveLoop (h : Kept r n { s with loops := s.loops + 1 } t) :
    Kept r n s { t with loops := t.loops - 1 } := by
  refine ⟨h.table, h.ledger, h.modes, ?_, h.result, h.diagnostics⟩
  rw [h.loops, Nat.add_sub_cancel]

theorem declare (hr : Symbol.IsChange r) {symbol : Symbol} {key : Binding} {table : Table}
    (h : s.table.declare symbol = .ok (key, table)) : Kept r 1 s { s with table } := by
  obtain ⟨-, rfl⟩ := Table.declare_eq_ok h
  exact .of_table (.append hr _ rfl)

end Kept

end State

namespace Check

variable {r : Symbol → Symbol → Prop} {n : Nat} {s t u : State} {kind : Access}
  {source token : Ident} {opened : Option Binding}

theorem diagnostics_endAccess (opened : Option Binding) (s : State) :
    (endAccess opened s).diagnostics = s.diagnostics := by
  cases opened <;> rfl

theorem diagnostics_le_endAccess (opened : Option Binding) (s : State) (depth : Nat) :
    s.diagnostics <+: ((endAccess opened s).closeScope depth).diagnostics := by
  have hclose := diagnostics_le_closeScope (endAccess opened s) depth
  rwa [diagnostics_endAccess] at hclose

namespace Opened

/-- The scope of an access has nothing but the token in it. -/
theorem table_eq (h : Opened kind source token s opened t) :
    ∃ inner, t.table = s.table.push.append (Symbol.ofToken token kind inner (s.depth + 1)) := by
  cases h with
  | refused => exact ⟨_, rfl⟩
  | entered => exact ⟨_, rfl⟩

theorem depth_eq (h : Opened kind source token s opened t) : t.depth = s.depth + 1 := by
  obtain ⟨inner, htable⟩ := h.table_eq
  rw [State.depth, htable, Table.depth_append, Table.depth_push]
  rfl

theorem sound (h : Opened kind source token s opened t) (hs : s.Sound) : t.Sound := by
  unfold State.Sound
  rw [h.depth_eq]
  cases h with
  | refused => exact hs.mono (Nat.le_succ s.depth)
  | entered symbol key ledger new hnew hfind hvar hbegin =>
      exact Ledger.Within.begin hs (Nat.le_succ s.depth) hbegin

theorem grown (hr : Symbol.IsChange r) (h : Opened kind source token s opened t) :
    Table.Grown r 1 s.table.push t.table := by
  obtain ⟨inner, htable⟩ := h.table_eq
  rw [htable]
  exact .append hr s.table.push rfl

/-- What is held stays held under an access. -/
theorem isHeld {key : Binding} (h : Opened kind source token s opened t)
    (hheld : s.ledger.isHeld key = true) : t.ledger.isHeld key = true := by
  cases h with
  | refused => exact hheld
  | entered _ _ ledger new hnew hfind hvar hbegin => exact Ledger.isHeld_begin hheld hbegin

theorem diagnostics_le (h : Opened kind source token s opened t) :
    s.diagnostics <+: t.diagnostics := by
  cases h with
  | refused inner new => exact ⟨new, rfl⟩
  | entered symbol key ledger new => exact ⟨new, rfl⟩

/-- Ending an access undoes what opening it has entered. -/
theorem ledger_endAccess (h : Opened kind source token s opened t) (hs : s.Sound)
    (hu : u.ledger = t.ledger) : (endAccess opened u).ledger = s.ledger := by
  cases h with
  | refused => exact hu
  | entered symbol key ledger new hnew hfind hvar hbegin =>
      have hkey : s.depth < key.depth := by
        obtain ⟨rfl, -, -⟩ := Ledger.begin_eq_ok hbegin
        exact Nat.lt_succ_self s.depth
      simp only [endAccess, hu]
      exact Ledger.finish_begin (hs.fresh hkey) hs.held hbegin

/-- Up to the end of the access, a check under it is a check in a scope of its own. -/
theorem kept_endAccess (hr : Symbol.IsChange r) (h : Opened kind source token s opened t)
    (hs : s.Sound) (hkept : State.Kept r n t u) :
    State.Kept r (1 + n) s.openScope (endAccess opened u) := by
  have hgrown : Table.Grown r (1 + n) s.table.push u.table := .trans hr (h.grown hr) hkept.table
  have hsame : t.modes = s.modes ∧ t.loops = s.loops ∧ t.result = s.result ∧
      ∃ new, t.diagnostics = s.diagnostics ++ new ∧ ∀ d ∈ new, d.fault.OfProgram := by
    cases h with
    | refused inner new hnew => exact ⟨rfl, rfl, rfl, new, rfl, hnew⟩
    | entered symbol key ledger new hnew => exact ⟨rfl, rfl, rfl, new, rfl, hnew⟩
  obtain ⟨hmodes, hloops, hresult, opening, hopening, hblame⟩ := hsame
  obtain ⟨new, hnew, hblame'⟩ := hkept.diagnostics
  have hend : endAccess opened u = { u with ledger := s.ledger } := by
    have hledger := h.ledger_endAccess hs hkept.ledger
    cases opened with
    | none =>
        rw [← hledger]
        rfl
    | some key =>
        rw [← hledger]
        rfl
  rw [hend]
  refine ⟨hgrown, rfl, hkept.modes.trans hmodes, hkept.loops.trans hloops,
    hkept.result.trans hresult, opening ++ new, ?_, List.forall_mem_append.2 ⟨hblame, hblame'⟩⟩
  rw [← List.append_assoc]
  exact hnew.trans (by rw [hopening]; rfl)

end Opened

/-- The relation between the states before and after a check. -/
def Keeping (r : Symbol → Symbol → Prop) (n : Nat) (s t : State) : Prop :=
  s.Sound → State.Kept r n s t

theorem frame_keeping (hr : Symbol.IsChange r) : Frame (Keeping r) where
  refl s _ := .refl hr s
  trans hst htu hs := .trans hr (hst hs) (htu ((hst hs).sound hs))
  weaken hmn h hs := (h hs).weaken hmn
  report h _ := .reports hr (List.forall_mem_singleton.2 h)

theorem exprFrame_keeping {env : Env} (hr : Symbol.IsChange r)
    (hmoved : env.language.moves = true → ∀ a, r a (a.setState .moved)) :
    ExprFrame env (Keeping r) where
  toFrame := frame_keeping hr
  move hmoves _ _ _ _ := .of_table (.update hr (hmoved hmoves) _ _)
  access h htu hs := (h.kept_endAccess hr hs (htu (h.sound hs))).closeScope hs

theorem stmtFrame_keeping {env : Env} (hr : Symbol.IsChange r)
    (hmoved : env.language.moves = true → ∀ a, r a (a.setState .moved))
    (hlive : ∀ a, r a (a.setState .live)) : StmtFrame env (Keeping r) where
  toExprFrame := exprFrame_keeping hr hmoved
  declare h _ := .declare hr h
  revive _ _ _ := .of_table (.update hr hlive _ _)
  scope h hs := (h hs.openScope).closeScope hs
  mode h hs := (h hs).leaveMode
  loop h hs := (h hs).leaveLoop

/-- Checking an expression only moves variables. -/
theorem exprFrame_aged {env : Env} : ExprFrame env (Keeping Symbol.Aged) :=
  exprFrame_keeping Symbol.isChange_aged fun _ _ => .inr rfl

theorem frame_similar : Frame (Keeping Symbol.Similar) :=
  frame_keeping Symbol.isChange_similar

/-- Checking a statement leaves symbols as they were, up to the states of variables. -/
theorem stmtFrame_similar {env : Env} : StmtFrame env (Keeping Symbol.Similar) :=
  stmtFrame_keeping Symbol.isChange_similar (fun _ => Symbol.similar_setState .moved)
    (Symbol.similar_setState .live)

theorem blockFrame_similar {env : Env} : BlockFrame env (Keeping Symbol.Similar) :=
  stmtFrame_similar.toBlockFrame

theorem declFrame_keeping {env : Env} : DeclFrame env (Keeping Symbol.Revised) where
  toStmtFrame := stmtFrame_keeping Symbol.isChange_revised
    (fun _ a => (Symbol.similar_setState .moved a).revised)
    fun a => (Symbol.similar_setState .live a).revised
  routine h hs := by
    have hkept := h hs
    exact ⟨hkept.table, hkept.ledger, hkept.modes, rfl, rfl, hkept.diagnostics⟩
  fields _ := .of_table (.update Symbol.isChange_revised (Symbol.revised_setFields _) _ _)

/-! ### What is kept -/

variable (env : Env)

/-- Checking an expression may move variables and nothing else. -/
theorem kept_checkExpr (hs : s.Sound) (expr : Expr) (use : Use) :
    State.Kept Symbol.Aged 0 s (checkExpr expr use env s).2 :=
  (checkExpr_keeps exprFrame_aged expr use s).left hs

theorem kept_checkStmt (hs : s.Sound) (stmt : Stmt) :
    State.Kept Symbol.Similar 1 s (checkStmt stmt env s).2 :=
  (checkStmt_keeps stmtFrame_similar stmt s).left hs

end Check

end Custody
