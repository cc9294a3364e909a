import Custody.Check.Access
import Custody.Proofs.Check.Frame
import Custody.Proofs.Ledger

/-! What opening a scoped access does. The token is alone in its scope, so it is always declared.
Whether the access is entered into the ledger depends on the variable it asks for. -/

namespace Custody

/-- The symbol of a token that is declared at `depth`. -/
def Symbol.ofToken (token : Ident) (kind : Access) (inner : Ty) (depth : Nat) : Symbol :=
  { Symbol.var token.name (.token kind inner) false token.span with depth }

namespace State

/-- Adds diagnostics and goes on. -/
def reports (state : State) (diagnostics : List Diagnostic) : State :=
  { state with diagnostics := state.diagnostics ++ diagnostics }

/-- The state in a new scope that holds nothing but a token. -/
def openToken (state : State) (token : Ident) (kind : Access) (inner : Ty) : State :=
  { state.openScope with
    table := state.table.push.append (Symbol.ofToken token kind inner (state.depth + 1)) }

@[simp] theorem reports_nil (state : State) : state.reports [] = state := by
  simp [reports]

theorem reports_reports (state : State) (first second : List Diagnostic) :
    (state.reports first).reports second = state.reports (first ++ second) := by
  simp [reports]

end State

namespace Check

/-- Opens the scope of an access and the access itself. -/
def openAccess (span : Span) (kind : Access) (source token : Ident) : Check (Option Binding) := do
  let language ← language
  require (language.supportsAccess kind) (.unsupported (.access kind) language) span
  modify State.openScope
  beginAccess kind source token

/-- What opening an access can lead to: it is refused, or it is entered into the ledger. Either way
the token is declared in a scope of its own, and all that has been reported blames the program. -/
inductive Opened (kind : Access) (source token : Ident) (s : State) : Option Binding → State → Prop
  | refused (inner : Ty) (new : List Diagnostic) (hnew : ∀ d ∈ new, d.fault.OfProgram) :
      Opened kind source token s none ((s.reports new).openToken token kind inner)
  | entered (symbol : Symbol) (key : Binding) (ledger : Ledger) (new : List Diagnostic)
      (hnew : ∀ d ∈ new, d.fault.OfProgram) (hfind : s.table.find? source.name = some symbol)
      (hvar : symbol.isVar = true)
      (hbegin : s.ledger.begin symbol.key token.name kind (s.depth + 1) token.span =
        (.ok key, ledger)) :
      Opened kind source token s (some key)
        { (s.reports new).openToken token kind symbol.ty.strip with ledger }

/-- A check that only reports, and blames the program in all it reports. -/
def OnlyReports (env : Env) (check : Check Unit) : Prop :=
  ∀ s, ∃ new, (∀ d ∈ new, d.fault.OfProgram) ∧ check env s = (.ok (), s.reports new)

theorem onlyReports_require {env : Env} {condition : Bool} {fault : Fault} {span : Span}
    (h : fault.OfProgram) : OnlyReports env (require condition fault span) := by
  intro s
  cases condition with
  | true => exact ⟨[], by simp, by simp [require]⟩
  | false => exact ⟨[⟨fault, span⟩], by simpa using h, rfl⟩

theorem onlyReports_checkReborrow {env : Env} {symbol : Symbol} {kind : Access} {source : Ident} :
    OnlyReports env (checkReborrow symbol kind source) := by
  unfold checkReborrow
  cases symbol.access? with
  | some held => exact onlyReports_require rfl
  | none => exact fun s => ⟨[], by simp, by simp⟩

/-- In an empty scope nothing is in the way of the token. -/
theorem declareToken_apply {token : Ident} {kind : Access} {inner : Ty} {env : Env} {s : State}
    (hempty : s.table.current = []) :
    declareToken token kind inner env s =
      (.ok (), { s with
        table := s.table.append (Symbol.ofToken token kind inner s.depth) }) := by
  have hdeclare : declare (Symbol.var token.name (.token kind inner) false token.span) env s =
      (.ok (), { s with
        table := s.table.append (Symbol.ofToken token kind inner s.depth) }) := by
    simp [declare, Table.declare, hempty, Scope.contains, Symbol.ofToken, State.depth]
  simp [declareToken, reporting, bind_apply, attempt, hdeclare]

theorem accessSource_apply (kind : Access) (source : Ident) (env : Env) (s : State) :
    (∃ new, (∀ d ∈ new, d.fault.OfProgram) ∧
      accessSource kind source env s = (.ok none, s.reports new)) ∨
    ∃ symbol, s.table.find? source.name = some symbol ∧ symbol.isVar = true ∧
      accessSource kind source env s = (.ok (some symbol), s) := by
  unfold accessSource
  simp only [bind_apply, state]
  cases hfind : s.table.find? source.name with
  | none =>
      exact .inl ⟨[⟨.undefinedSymbol source.name, source.span⟩],
        List.forall_mem_singleton.2 rfl, rfl⟩
  | some symbol =>
      by_cases hvar : symbol.isVar = true
      · exact .inr ⟨symbol, rfl, hvar, by simp [hvar]⟩
      · refine .inl ⟨[⟨.misuse (.accessToNonVariable kind source.name), source.span⟩],
          List.forall_mem_singleton.2 rfl, ?_⟩
        simp only [hvar]
        rfl

/-- An access that has passed the rules before it is entered, unless the ledger has an access that
cannot go together with it. -/
theorem enterAccess_apply (symbol : Symbol) (kind : Access) (source token : Ident) (env : Env)
    (s : State) :
    (∃ new, (∀ d ∈ new, d.fault.OfProgram) ∧
      enterAccess symbol kind source token env s = (.ok none, s.reports new)) ∨
    ∃ key ledger, s.ledger.begin symbol.key token.name kind s.depth token.span =
        (.ok key, ledger) ∧
      enterAccess symbol kind source token env s = (.ok (some key), { s with ledger }) := by
  unfold enterAccess
  rcases Ledger.begin_cases s.ledger symbol.key token.name kind s.depth token.span with
    ⟨violation, hbegin⟩ | ⟨key, ledger, hbegin⟩
  · exact .inl ⟨[⟨.ofViolation violation, source.span⟩],
      List.forall_mem_singleton.2 (Fault.ofViolation_ofProgram violation), by rw [hbegin]; rfl⟩
  · exact .inr ⟨key, ledger, hbegin, by rw [hbegin]⟩

/-- What is reported before the access is opened counts as reported by opening it. -/
theorem Opened.of_reports {kind : Access} {source token : Ident} {s t : State}
    {opened : Option Binding} {new : List Diagnostic} (hnew : ∀ d ∈ new, d.fault.OfProgram)
    (h : Opened kind source token (s.reports new) opened t) : Opened kind source token s opened t := by
  cases h with
  | refused inner more hmore =>
      rw [State.reports_reports]
      exact .refused inner _ (List.forall_mem_append.2 ⟨hnew, hmore⟩)
  | entered symbol key ledger more hmore hfind hvar hbegin =>
      rw [State.reports_reports]
      exact .entered symbol key ledger _ (List.forall_mem_append.2 ⟨hnew, hmore⟩) hfind hvar hbegin

/-- From `t` on, `check` does the rest of opening an access that was asked for in `s`. -/
def Opens (env : Env) (kind : Access) (source token : Ident) (s : State)
    (check : Check (Option Binding)) (t : State) : Prop :=
  ∃ opened u, check env t = (.ok opened, u) ∧ Opened kind source token s opened u

theorem Opens.bind {α : Type} {env : Env} {kind : Access} {source token : Ident} {s t t' : State}
    {check : Check α} {next : α → Check (Option Binding)} {a : α}
    (hrun : check env t = (.ok a, t')) (hnext : Opens env kind source token s (next a) t') :
    Opens env kind source token s (check >>= next) t := by
  obtain ⟨opened, u, hopened, hu⟩ := hnext
  exact ⟨opened, u, by rw [bind_apply, hrun]; exact hopened, hu⟩

/-- Reports do not keep an access from being opened, neither in its scope nor in front of it. -/
theorem OnlyReports.opens {env : Env} {kind : Access} {source token : Ident} {s t : State}
    {check : Check Unit} {next : Unit → Check (Option Binding)} (h : OnlyReports env check)
    (hnext : ∀ new, Opens env kind source token (s.reports new) (next ()) (t.reports new)) :
    Opens env kind source token s (check >>= next) t := by
  obtain ⟨new, hnew, hrun⟩ := h t
  obtain ⟨opened, u, hopened, hu⟩ := hnext new
  exact Opens.bind hrun ⟨opened, u, hopened, hu.of_reports hnew⟩

/-- An access to a variable is entered unless the ledger refuses it. -/
theorem enterAccess_opens {symbol : Symbol} {kind : Access} {source token : Ident}
    {env : Env} {s : State} (hfind : s.table.find? source.name = some symbol)
    (hvar : symbol.isVar = true) :
    Opens env kind source token s (do
      let opened ← enterAccess symbol kind source token
      declareToken token kind symbol.ty.strip
      return opened) s.openScope := by
  rcases enterAccess_apply symbol kind source token env s.openScope with
    ⟨new, hnew, hrun⟩ | ⟨key, ledger, hbegin, hrun⟩
  · refine Opens.bind hrun (Opens.bind (declareToken_apply rfl) ?_)
    exact ⟨none, _, rfl, .refused symbol.ty.strip new hnew⟩
  · refine Opens.bind hrun (Opens.bind (declareToken_apply rfl) ?_)
    refine ⟨some key, _, rfl, ?_⟩
    have hentered := Opened.entered symbol key ledger [] (by simp) hfind hvar hbegin
    rw [State.reports_nil] at hentered
    exact hentered

theorem beginAccess_opens (kind : Access) (source token : Ident) (env : Env) (s : State) :
    Opens env kind source token s (beginAccess kind source token) s.openScope := by
  unfold beginAccess
  refine Opens.bind rfl (OnlyReports.opens (onlyReports_require rfl) fun guarded => ?_)
  rcases accessSource_apply kind source env (s.reports guarded).openScope with
    ⟨missing, hmissing, hsource⟩ | ⟨symbol, hfind, hvar, hsource⟩
  · refine Opens.bind hsource (Opens.bind (declareToken_apply rfl) ?_)
    exact ⟨none, _, rfl, .refused .unknown missing hmissing⟩
  · refine Opens.bind hsource (OnlyReports.opens (onlyReports_require rfl) fun _ => ?_)
    exact OnlyReports.opens onlyReports_checkReborrow fun _ => enterAccess_opens hfind hvar

/-- Opening an access does not fail. -/
theorem openAccess_opens (span : Span) (kind : Access) (source token : Ident) (env : Env)
    (s : State) : Opens env kind source token s (openAccess span kind source token) s := by
  unfold openAccess
  refine Opens.bind rfl (OnlyReports.opens (onlyReports_require rfl) fun new => ?_)
  exact Opens.bind rfl (beginAccess_opens kind source token env (s.reports new))

/-- A check under an access runs in the state that opening the access leaves. Whatever it does
there, the access ends and its scope is closed. -/
theorem withAccess_apply {α : Type} {span : Span} {kind : Access} {source token : Ident} {env : Env}
    {s t : State} {opened : Option Binding}
    (hopen : openAccess span kind source token env s = (.ok opened, t)) (check : Check α) :
    withAccess span kind source token check env s =
      ((check env t).1, (endAccess opened (check env t).2).closeScope (s.depth + 1)) := by
  have hrequire : OnlyReports env (require (env.language.supportsAccess kind)
    (.unsupported (.access kind) env.language) span) := onlyReports_require rfl
  obtain ⟨new, -, hrun⟩ := hrequire s
  have hbegin : beginAccess kind source token env (s.reports new).openScope = (.ok opened, t) := by
    simpa only [openAccess, language, bind_apply, hrun, modify] using hopen
  simp only [withAccess, language, bind_apply, hrun, withScope, bracket, hbegin]
  rfl

end Check

end Custody
