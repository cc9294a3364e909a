import Custody.Diagnostic
import Custody.Library.Module

/-! The state of an analysis and the steps that checking is made of. A check reads its surroundings,
changes the state, and may be cut short by a diagnostic; what it did to the state until then stays.
Scopes, modes, loops and routines are entered by functions that also leave them, whichever way the
check inside ends. -/

namespace Custody

/-- What stays the same during an analysis. -/
structure Env where
  language : Language
  /-- The modules that are loaded, of one path only the first. -/
  modules : List Module

/-- The symbol of the first export of a name in the module at a path. -/
def Env.member? (env : Env) (path name : String) : Option Symbol :=
  (env.modules.find? (·.path == path)).bind (·.exported? env.language name)

structure State where
  table : Table
  ledger : Ledger := {}
  modes : Modes := {}
  /-- The number of loops around the current place, within its routine. -/
  loops : Nat := 0
  /-- The type the current routine returns; none outside of routines. -/
  result : Option Ty := none
  diagnostics : List Diagnostic := []

namespace State

def depth (state : State) : Nat :=
  state.table.depth

def report (state : State) (diagnostic : Diagnostic) : State :=
  { state with diagnostics := state.diagnostics ++ [diagnostic] }

def openScope (state : State) : State :=
  { state with table := state.table.push }

/-- Ends what is left of the accesses opened in the innermost scope, which is at `depth`, and takes
the scope away. -/
def closeScope (state : State) (depth : Nat) : State :=
  let state := { state with ledger := (state.ledger.retire depth).2 }
  match state.table.pop with
  | .ok (_, table) => { state with table }
  | .error cause => state.report ⟨.scopesBroken cause, {}⟩

def enterMode (state : State) (mode : Mode) : State :=
  { state with modes := state.modes.enter mode }

def leaveMode (state : State) (mode : Mode) : State :=
  { state with modes := state.modes.leave mode }

end State

/-- A step of the analysis with a value of type `α`. -/
def Check (α : Type) : Type :=
  Env → State → Except Diagnostic α × State

namespace Check

variable {α β : Type}

instance : Monad Check where
  pure a := fun _ state => (.ok a, state)
  bind check next := fun env state =>
    match check env state with
    | (.ok a, state) => next a env state
    | (.error diagnostic, state) => (.error diagnostic, state)

@[simp] theorem pure_apply (a : α) (env : Env) (state : State) :
    (pure a : Check α) env state = (.ok a, state) := rfl

/-- The next step sees the state that the first one left, and a diagnostic ends both. -/
theorem bind_apply (check : Check α) (next : α → Check β) (env : Env) (state : State) :
    (check >>= next) env state =
      match check env state with
      | (.ok a, state) => next a env state
      | (.error diagnostic, state) => (.error diagnostic, state) := rfl

/-- The first part has a value and the rest runs, or it is cut short and with it the whole. -/
theorem bind_cases (check : Check α) (next : α → Check β) (env : Env) (state : State) :
    (∃ a, (check env state).1 = .ok a ∧
      (check >>= next) env state = next a env (check env state).2) ∨
    ∃ diagnostic, (check env state).1 = .error diagnostic ∧
      (check >>= next) env state = (.error diagnostic, (check env state).2) := by
  rw [bind_apply]
  rcases check env state with ⟨diagnostic | a, left⟩
  · exact .inr ⟨diagnostic, rfl, rfl⟩
  · exact .inl ⟨a, rfl, rfl⟩

instance : LawfulMonad Check :=
  LawfulMonad.mk' Check
    (by
      intro α check
      funext env state
      change (check >>= fun a => pure a) env state = check env state
      rw [bind_apply]
      rcases check env state with ⟨result, left⟩
      cases result <;> rfl)
    (by intros; rfl)
    (by
      intro α β γ check next last
      funext env state
      rw [bind_apply, bind_apply, bind_apply]
      rcases check env state with ⟨result, left⟩
      cases result <;> rfl)

/-- The surroundings. -/
def env : Check Env := fun env state => (.ok env, state)

def language : Check Language := fun env state => (.ok env.language, state)

def state : Check State := fun _ state => (.ok state, state)

/-- The depth of the innermost scope. -/
def depth : Check Nat := fun _ state => (.ok state.depth, state)

def modify (f : State → State) : Check Unit := fun _ state => (.ok (), f state)

def fail (fault : Fault) (span : Span) : Check α := fun _ state => (.error ⟨fault, span⟩, state)

/-- Adds a diagnostic and goes on. -/
def report (fault : Fault) (span : Span) : Check Unit :=
  modify (·.report ⟨fault, span⟩)

/-- Reports a fault unless the condition holds. -/
def require (condition : Bool) (fault : Fault) (span : Span) : Check Unit :=
  if condition then pure () else report fault span

/-- A rule that only looks at the state. -/
def rule (f : State → Except Diagnostic α) : Check α := fun _ state => (f state, state)

/-- A rule about types, whose fault is at `span`. -/
def judge (verdict : Except Fault α) (span : Span) : Check α :=
  match verdict with
  | .ok a => pure a
  | .error fault => fail fault span

/-- Runs a check; if it is cut short, reports why and has no value. -/
def attempt (check : Check α) : Check (Option α) := fun env state =>
  match check env state with
  | (.ok a, state) => (.ok (some a), state)
  | (.error diagnostic, state) => (.ok none, state.report diagnostic)

theorem attempt_cases (check : Check α) (env : Env) (state : State) :
    (∃ a, (check env state).1 = .ok a ∧
      attempt check env state = (.ok (some a), (check env state).2)) ∨
    ∃ diagnostic, (check env state).1 = .error diagnostic ∧
      attempt check env state = (.ok none, (check env state).2.report diagnostic) := by
  unfold attempt
  rcases check env state with ⟨diagnostic | a, left⟩
  · exact .inr ⟨diagnostic, rfl, rfl⟩
  · exact .inl ⟨a, rfl, rfl⟩

/-- Runs a check for its effect and reports what cuts it short. -/
def reporting (check : Check Unit) : Check Unit := do
  let _ ← attempt check

theorem reporting_cases (check : Check Unit) (env : Env) (state : State) :
    reporting check env state = (.ok (), (check env state).2) ∨
    ∃ diagnostic, reporting check env state = (.ok (), (check env state).2.report diagnostic) := by
  unfold reporting
  rw [bind_apply]
  rcases attempt_cases check env state with ⟨a, -, hrun⟩ | ⟨diagnostic, -, hrun⟩
  · exact .inl (by rw [hrun]; rfl)
  · exact .inr ⟨diagnostic, by rw [hrun]; rfl⟩

/-- Enters the state by `before` and leaves it by `after`, which sees the state that was entered. -/
def bracket (before : State → State) (after : State → State → State) (check : Check α) : Check α :=
  fun env state =>
    let entered := before state
    let (result, left) := check env entered
    (result, after entered left)

/-- Runs a check in a scope of its own. -/
def withScope (check : Check α) : Check α :=
  bracket State.openScope (fun entered left => left.closeScope entered.depth) check

/-- Runs a check inside one more block of a mode. -/
def withMode (mode : Mode) (check : Check α) : Check α :=
  bracket (·.enterMode mode) (fun _ left => left.leaveMode mode) check

/-- Runs a check inside one more loop. -/
def inLoop (check : Check α) : Check α :=
  bracket (fun state => { state with loops := state.loops + 1 })
    (fun _ left => { left with loops := left.loops - 1 }) check

/-- Runs the check of a routine's body: no loop is open there, and `result` is what it returns.
Afterwards the surroundings of the routine are as before. -/
def inRoutine (result : Ty) (check : Check α) : Check α := fun env state =>
  bracket (fun state => { state with result := some result, loops := 0 })
    (fun _ left => { left with result := state.result, loops := state.loops }) check env state

/-- Declares a symbol in the innermost scope; a duplicate stands where the symbol does. -/
def declare (symbol : Symbol) : Check Unit := fun _ state =>
  match state.table.declare symbol with
  | .ok (_, table) => (.ok (), { state with table })
  | .error cause => (.error ⟨.ofScope cause, symbol.span⟩, state)

/-- Sets whether a variable has its value. That the table does not know the name would be a fault of
the analysis itself. -/
def setState (name : String) (holding : Holding) (span : Span) : Check Unit :=
  modify fun state =>
    match state.table.setState name holding with
    | .ok table => { state with table }
    | .error cause => state.report ⟨.scopesBroken cause, span⟩

theorem setState_of_find? {name : String} {symbol : Symbol} {state : State}
    (h : state.table.find? name = some symbol) (holding : Holding) (span : Span) (env : Env) :
    setState name holding span env state =
      (.ok (), { state with table := state.table.update name (Symbol.setState holding) }) := by
  simp only [setState, modify, Table.setState, Table.lookup, h]
  rfl

/-- The symbol a name stands for; if there is none, the fault is at `span`. -/
def lookup (name : String) (span : Span) : Check Symbol :=
  rule fun state =>
    match state.table.find? name with
    | some symbol => .ok symbol
    | none => .error ⟨.undefinedSymbol name, span⟩

end Check

end Custody
