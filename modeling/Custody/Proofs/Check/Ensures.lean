import Custody.Proofs.Check.Maintains
import Custody.Proofs.Ty.Closed

/-! Two things that no check spoils. The types of symbols and expressions are closed: type parameters
stay in the fields of the types that declare them. And where values do not move, no variable is ever
without its value. Both are properties of single symbols, so it is enough that every symbol that is
declared has them. -/

namespace Custody

/-- Where values do not move, this is not a use of a moved value. -/
def Fault.Proper (language : Language) (fault : Fault) : Prop :=
  language.moves = false → fault.isUseAfterMove = false

theorem Fault.Ordinary.proper {language : Language} {fault : Fault} (h : fault.Ordinary) :
    fault.Proper language :=
  fun _ => h.notMoved

/-- The type of the symbol is closed, and where values do not move it has its value. -/
structure Symbol.Proper (language : Language) (symbol : Symbol) : Prop where
  closed : symbol.ty.isClosed = true
  live : language.moves = false → symbol.isMoved = false

namespace Symbol

variable {language : Language} {symbol : Symbol}

theorem Proper.var {name : String} {ty : Ty} {mutable : Bool} {span : Span}
    (h : ty.isClosed = true) : (Symbol.var name ty mutable span).Proper language :=
  ⟨h, fun _ => rfl⟩

theorem Proper.atDepth (h : symbol.Proper language) (depth : Nat) :
    ({ symbol with depth } : Symbol).Proper language :=
  ⟨h.closed, h.live⟩

theorem Proper.setFields (h : symbol.Proper language) (fields : List (String × Ty)) :
    (symbol.setFields fields).Proper language := by
  rcases symbol with ⟨name, kind, ty, visibility, depth, span⟩
  cases kind <;> exact ⟨h.closed, h.live⟩

theorem Proper.setState (h : symbol.Proper language) {state : Holding}
    (hstate : language.moves = false → state = .live) : (symbol.setState state).Proper language := by
  rcases symbol with ⟨name, kind, ty, visibility, depth, span⟩
  cases kind with
  | var mutable old =>
      refine ⟨h.closed, fun hmoves => ?_⟩
      rw [hstate hmoves]
      rfl
  | _ => exact h

/-- What importers see of a declaration has its value. -/
theorem proper_symbol (language : Language) (decl : Decl) :
    (decl.symbol language).Proper language := by
  refine ⟨decl.isClosed_symbol language, fun _ => ?_⟩
  cases decl <;> rfl

end Symbol

/-- All symbols of the table are proper. -/
def Table.Proper (language : Language) : Table → Prop :=
  Table.All (Symbol.Proper language)

/-- The table is `good`, the type that the routine returns is closed, and where values do not move,
none has been reported as moved. -/
structure State.Proper (language : Language) (good : Table → Prop) (s : State) : Prop where
  table : good s.table
  result : ∀ ty, s.result = some ty → ty.isClosed = true
  reports : ∀ diagnostic ∈ s.diagnostics, diagnostic.fault.Proper language

namespace State.Proper

variable {language : Language} {good : Table → Prop} {s : State}

/-- What is reported last is no use of a moved value where values do not move. -/
theorem fault_of_report {diagnostic : Diagnostic} (h : (s.report diagnostic).Proper language good) :
    diagnostic.fault.Proper language :=
  h.reports diagnostic (List.mem_append_right _ (List.mem_singleton_self _))

theorem report {diagnostic : Diagnostic} (h : s.Proper language good)
    (hfault : diagnostic.fault.Proper language) : (s.report diagnostic).Proper language good where
  table := h.table
  result := h.result
  reports := List.forall_mem_append.2 ⟨h.reports, List.forall_mem_singleton.2 hfault⟩

theorem openScope (h : s.Proper language (Table.Proper language)) :
    s.openScope.Proper language (Table.Proper language) :=
  ⟨h.table.push, h.result, h.reports⟩

theorem closeScope (h : s.Proper language (Table.Proper language)) (depth : Nat) :
    (s.closeScope depth).Proper language (Table.Proper language) := by
  unfold State.closeScope
  simp only
  cases hpop : s.table.pop with
  | ok popped => exact ⟨h.table.pop hpop, h.result, h.reports⟩
  | error cause => exact State.Proper.report ⟨h.table, h.result, h.reports⟩ fun _ => rfl

theorem enterMode {mode : Mode} (h : s.Proper language good) :
    (s.enterMode mode).Proper language good :=
  ⟨h.table, h.result, h.reports⟩

theorem inLoop (h : s.Proper language good) :
    State.Proper language good { s with loops := s.loops + 1 } :=
  ⟨h.table, h.result, h.reports⟩

theorem inRoutine {result : Ty} (h : s.Proper language good) (hresult : result.isClosed = true) :
    State.Proper language good { s with result := some result, loops := 0 } := by
  refine ⟨h.table, fun ty hty => ?_, h.reports⟩
  cases hty
  exact hresult

end State.Proper

namespace Check

variable {α : Type} {env : Env} {good : Table → Prop} {Q : α → Prop}

/-- Started in a proper state, the check leaves such a state, and its value has the property `Q`.
What cuts it short is no use of a moved value where values do not move. -/
abbrev Ensures (env : Env) (good : Table → Prop) (Q : α → Prop) (check : Check α) : Prop :=
  Maintains env (State.Proper env.language good) Q check

/-- The check leaves a proper state. -/
abbrev Upholds (env : Env) (check : Check α) : Prop :=
  Ensures env (Table.Proper env.language) (fun _ => True) check

/-- The check leaves a proper state, and the type that it finds is closed. -/
abbrev FindsClosed (env : Env) (check : Check Ty) : Prop :=
  Ensures env (Table.Proper env.language) (fun ty => ty.isClosed = true) check

theorem Reportable.proper {language : Language} {fault : Fault} {span : Span}
    (h : fault.Proper language) : Reportable (State.Proper language good) ⟨fault, span⟩ :=
  fun _ hs => hs.report h

theorem Reportable.ordinary {language : Language} {fault : Fault} {span : Span}
    (h : fault.Ordinary) : Reportable (State.Proper language good) ⟨fault, span⟩ :=
  .proper h.proper

namespace Ensures

theorem around {inside : Table → Prop} {before : State → State} {after : State → State → State}
    {check : Check α} (h : Ensures env inside Q check)
    (hbefore : ∀ s, s.Proper env.language good → (before s).Proper env.language inside)
    (hafter : ∀ s t, s.Proper env.language good → t.Proper env.language inside →
      (after (before s) t).Proper env.language good) :
    Ensures env good Q (Check.bracket before after check) :=
  h.bracket hbefore hafter fun s t _ hs ht hreported =>
    (hafter s t hs ht).report hreported.fault_of_report

theorem withMode {mode : Mode} {check : Check α} (h : Ensures env good Q check) :
    Ensures env good Q (Check.withMode mode check) :=
  around h (fun _ hs => hs.enterMode) fun _ _ _ ht => ⟨ht.table, ht.result, ht.reports⟩

theorem inLoop {check : Check α} (h : Ensures env good Q check) :
    Ensures env good Q (Check.inLoop check) :=
  around h (fun _ hs => hs.inLoop) fun _ _ _ ht => ⟨ht.table, ht.result, ht.reports⟩

theorem inRoutine {result : Ty} {check : Check α} (hresult : result.isClosed = true)
    (h : Ensures env good Q check) : Ensures env good Q (Check.inRoutine result check) := by
  have hleft : ∀ {s}, s.Proper env.language good →
      (Check.inRoutine result check env s).2.Proper env.language good := by
    intro s hs
    have ht := h.left (hs.inRoutine hresult)
    exact ⟨ht.table, hs.result, ht.reports⟩
  refine ⟨hleft, fun hs ha => h.value (hs.inRoutine hresult) ha, fun hs hd => ?_⟩
  exact (hleft hs).report (h.cut (hs.inRoutine hresult) hd).fault_of_report

theorem inScope {check : Check α} (h : Ensures env (Table.Proper env.language) Q check) :
    Ensures env (Table.Proper env.language) Q (Check.withScope check) :=
  around h (fun _ hs => hs.openScope) fun _ _ _ ht => ht.closeScope _

theorem declareIn {symbol : Symbol}
    (h : ∀ table, good table → good (table.append { symbol with depth := table.depth })) :
    Ensures env good (fun _ => True) (Check.declare symbol) := by
  refine declare_leaves (fun {s key table} hs hdeclare => ?_) (.ordinary ⟨rfl, rfl, rfl⟩)
  obtain ⟨-, rfl⟩ := Table.declare_eq_ok hdeclare
  exact ⟨h s.table hs.table, hs.result, hs.reports⟩

theorem declare {symbol : Symbol} (hsymbol : symbol.Proper env.language) :
    Ensures env (Table.Proper env.language) (fun _ => True) (Check.declare symbol) :=
  declareIn fun _ h => h.append (hsymbol.atDepth _)

end Ensures

end Check

end Custody
