import Custody.Check.Rule

/-! Scoped access constructs. The token is declared in a scope of its own, and the access ends with
that scope. -/

namespace Custody.Check

/-- Declares the token of an access. -/
def declareToken (token : Ident) (kind : Access) (inner : Ty) : Check Unit :=
  reporting (declare (Symbol.var token.name (.token kind inner) false token.span))

/-- The variable that an access asks for. Whatever else the name stands for is reported. -/
def accessSource (kind : Access) (source : Ident) : Check (Option Symbol) := do
  let state ← state
  match state.table.find? source.name with
  | none => do
      report (.undefinedSymbol source.name) source.span
      return none
  | some symbol =>
      if symbol.isVar then return some symbol
      else do
        report (.misuse (.accessToNonVariable kind source.name)) source.span
        return none

/-- Access through a token does not gain the right to write. -/
def checkReborrow (symbol : Symbol) (kind : Access) (source : Ident) : Check Unit :=
  match symbol.access? with
  | some held => require (held.writes || !kind.writes) (.readOnlyToken source.name held) source.span
  | none => return

/-- Enters an access into the ledger. If that fails, it is reported. -/
def enterAccess (symbol : Symbol) (kind : Access) (source token : Ident) :
    Check (Option Binding) := fun _ state =>
  match state.ledger.begin symbol.key token.name kind state.depth token.span with
  | (.ok key, ledger) => (.ok (some key), { state with ledger })
  | (.error violation, ledger) =>
      (.ok none, { state with ledger }.report ⟨.ofViolation violation, source.span⟩)

/-- Opens an access and declares its token. The token is declared also if the access is not
possible, so that its uses are not reported once more. -/
def beginAccess (kind : Access) (source token : Ident) : Check (Option Binding) := do
  let state ← state
  require (state.modes.satisfies .outsideWhenGuard)
    (.modeRequired (.access kind source.name) .outsideWhenGuard) token.span
  match ← accessSource kind source with
  | none => do
      declareToken token kind .unknown
      return none
  | some symbol => do
      require (!symbol.isMoved) (.useAfterMove source.name) source.span
      checkReborrow symbol kind source
      let opened ← enterAccess symbol kind source token
      declareToken token kind symbol.ty.strip
      return opened

/-- Ends an access that was opened. -/
def endAccess (opened : Option Binding) (state : State) : State :=
  match opened with
  | some key => { state with ledger := (state.ledger.finish key).2 }
  | none => state

/-- Runs a check under a scoped access. -/
def withAccess {α : Type} (span : Span) (kind : Access) (source token : Ident) (check : Check α) :
    Check α := do
  let language ← language
  require (language.supportsAccess kind) (.unsupported (.access kind) language) span
  withScope do
    let opened ← beginAccess kind source token
    bracket id (fun _ left => endAccess opened left) check

end Custody.Check
