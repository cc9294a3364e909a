import Custody.Check.Expr

/-! Checking of statements. A statement that is cut short is reported, and the next one is
checked. -/

namespace Custody.Check

/-- A condition must be a truth value. -/
def checkCondition (condition : Expr) : Check Unit := do
  let ty ← checkExpr condition .read
  judge (Ty.bool.expect ty) condition.span

/-- A variable is declared with the type `declared` and set to a value of type `found`. This gives
the type it gets, and whether it takes the value over. A token binding must be set to a token, and
a copy of a token for a shared value stays a token. -/
def bindDeclared (declared : Ty) (init : Expr) (found : Ty) : Check (Ty × Bool) := do
  let state ← state
  if !declared.accepts found then do
    report (.typeMismatch declared found) init.span
    return (declared, false)
  else if declared.isToken && !found.isToken && found ≠ .unknown then do
    report (.typeMismatch declared found) init.span
    return (declared, false)
  else if !declared.isToken && state.table.isReferenceToken found then return (found, false)
  else return (declared, true)

/-- The type a declaration is written with, if there is one. -/
def declaredType (type : Option TypeExpr) : Check (Option Ty) :=
  match type with
  | some type => some <$> typeOrUnknown type
  | none => return none

/-- The type of a variable that is set to `init`, and maybe written with the type `declared`. -/
def initType (declared : Option Ty) (init : Expr) : Check Ty := do
  let depth ← depth
  let found ← attempt (checkExpr init (.store depth))
  match declared, found with
  | some ty, none => return ty
  | some ty, some found => do
      let (ty, owned) ← bindDeclared ty init found
      if owned then do
        takeOver init
        return ty
      else return ty
  | none, none => return .unknown
  | none, some found => do
      let language ← language
      takeOver init
      return language.settle found

/-- Checks a declaration of a variable up to the type it gets. -/
def varType (decl : VarDecl) : Check Ty := do
  let declared ← declaredType decl.type
  match decl.init, declared with
  | some init, declared => initType declared init
  | none, some ty => return ty
  | none, none => do
      report (.cannotInfer decl.name.name) decl.name.span
      return .unknown

def checkVar (decl : VarDecl) : Check Unit := do
  let ty ← varType decl
  declare { Symbol.var decl.name.name ty decl.mutable decl.name.span with
    visibility := decl.visibility }

/-- A place that is written to: its type, and the depth of the variable it belongs to. -/
def checkPlace : Expr → Check (Ty × Nat)
  | .paren _ inner => checkPlace inner
  | .ident span name => do
      let symbol ← lookup name span
      if !symbol.isVar then fail (.misuse (.assignThrough name)) span
      else do
        useSymbol symbol .write span
        if symbol.access?.isNone && !symbol.isMutable then fail (.assignToImmutable name) span
        else return (symbol.ty, symbol.depth)
  | .member _ object property => do
      let (ty, depth) ← checkPlace object
      return (← memberType ty property, depth)
  | .index span object position => do
      let (ty, depth) ← checkPlace object
      let positionTy ← checkExpr position .read
      return (← elementType ty positionTy position.span span, depth)
  | place => fail (.misuse .assignTarget) place.span

/-- A variable that is assigned as a whole. It may have lost its value, but must not be held. -/
def checkTarget (name : String) (span : Span) : Check (Ty × Nat) := do
  let symbol ← lookup name span
  match symbol.kind with
  | .var true _ => do
      let state ← state
      let usurping := state.modes.isActive .usurping
      match state.ledger.checkUse symbol.key state.depth .write usurping with
      | .ok () => return (symbol.ty, symbol.depth)
      | .error violation => fail (.ofViolation violation) span
  | .var false _ => fail (.assignToImmutable name) span
  | _ => fail (.misuse (.assignTo name)) span

/-- A variable that is assigned to has a value again. -/
def revive (target : Expr) : Check Unit := fun env state =>
  match target.asIdent with
  | none => (.ok (), state)
  | some name =>
      if (state.table.find? name).any (·.isMoved) then
        setState name .live target.span env state
      else (.ok (), state)

/-- Gives a value to a target of type `ty` that belongs to a variable at `depth`. -/
def assignValue (target value : Expr) (ty : Ty) (depth : Nat) : Check Unit := do
  let found ← checkExpr value (.store depth)
  judge (ty.expect found) value.span
  let state ← state
  if !ty.isToken && state.table.isReferenceToken found then
    fail (.typeMismatch ty found) value.span
  else do
    takeOver value
    revive target

/-- The target of an assignment: a variable as a whole or a place. -/
def assignTarget : Expr → Check (Ty × Nat)
  | .ident span name => checkTarget name span
  | place => checkPlace place

def checkAssign (target value : Expr) : Check Unit := do
  let (ty, depth) ← assignTarget target
  assignValue target value ty depth

/-- A routine returns what it declares. -/
def checkReturn (value : Option Expr) (span : Span) : Check Unit := do
  let state ← state
  match state.result with
  | none => fail (.misuse .returnOutsideRoutine) span
  | some expected =>
      match value with
      | some value => do
          let found ← checkExpr value .give
          judge (expected.expect found) value.span
      | none =>
          if expected = .blank ∨ expected = .unknown then return
          else fail (.typeMismatch expected .blank) span

/-- The types of a pattern and of the value it is matched with must agree; a name is bound to that
value. -/
def checkPattern (pattern : Pattern) (subject : Ty) : Check Unit :=
  match pattern with
  | .otherwise _ => return
  | .literal span value =>
      require (subject.strip.accepts value.ty) (.typeMismatch subject.strip value.ty) span
  | .binding _ name => reporting (declare (Symbol.var name.name subject false name.span))

def checkGuard (guard : Option Expr) : Check Unit :=
  match guard with
  | none => return
  | some condition => reporting (withMode .whenGuard (checkCondition condition))

/-- The block itself is reported if the language does not have it. -/
def requireUnsafeBlocks (construct : Construct) (span : Span) : Check Unit := do
  let language ← language
  require language.supportsUnsafeBlocks (.unsupported construct language) span

mutual
def checkStmt : Stmt → Check Unit
  | .expr _ value => do
      let _ ← checkExpr value .read
  | .var _ decl => checkVar decl
  | .assign _ target value => checkAssign target value
  | .give span value => checkReturn value span
  | .branch _ condition body otherwise => do
      reporting (checkCondition condition)
      withScope (checkStmts body)
      match otherwise with
      | none => return
      | some stmt => checkStmt stmt
  | .whileLoop _ condition body => do
      reporting (checkCondition condition)
      inLoop (withScope (checkStmts body))
  | .forLoop _ binding items body => do
      let ty ← checkExpr items .read
      match ty.element? with
      | none => fail (.misuse (.notIterable ty)) items.span
      | some element =>
          withScope do
            reporting (declare (Symbol.var binding.name element false binding.span))
            inLoop (checkStmts body)
  | .choose _ subject arms => do
      let ty ← checkExpr subject .read
      checkArms ty arms
  | .block _ body => withScope (checkStmts body)
  | .danger span body => do
      requireUnsafeBlocks .dangerBlock span
      withMode .danger (withScope (checkStmts body))
  | .mayhem span body => do
      requireUnsafeBlocks .mayhemBlock span
      withMode .mayhem (withScope (checkStmts body))
  | .access span kind source token body => withAccess span kind source token (checkStmts body)
  | .leaveLoop span => do
      let state ← state
      if state.loops = 0 then fail (.misuse .breakOutsideLoop) span
  | .nextRound span => do
      let state ← state
      if state.loops = 0 then fail (.misuse .continueOutsideLoop) span
  | .raise _ value => do
      let _ ← checkExpr value (.argument false)

/-- Checks the statements of a block in the innermost scope. -/
def checkStmts : List Stmt → Check Unit
  | [] => return
  | stmt :: stmts => do
      reporting (checkStmt stmt)
      checkStmts stmts

/-- Checks the cases of a `when`, each in a scope of its own. -/
def checkArms (subject : Ty) : List (Arm Stmt) → Check Unit
  | [] => return
  | ⟨pattern, guard, body⟩ :: arms => do
      withScope do
        checkPattern pattern subject
        checkGuard guard
        checkStmts body
      checkArms subject arms
end

end Custody.Check
