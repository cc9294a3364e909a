import Custody.Check.Stmt

/-! Checking of declarations at the top of a module. -/

namespace Custody.Check

/-- Resolves the types of parameters in order. -/
def paramTypes : List Param → Check (List Ty)
  | [] => return []
  | param :: params => do
      let ty ← typeOrUnknown param.type
      let tys ← paramTypes params
      return ty :: tys

def declareParams : List (Param × Ty) → Check Unit
  | [] => return
  | (param, ty) :: params => do
      reporting (declare (Symbol.var param.name.name ty false param.name.span))
      declareParams params

/-- The body of a routine, in a scope that declares its parameters. -/
def checkBody (params : List (Param × Ty)) (usurping : Bool) (body : List Stmt) : Check Unit :=
  withScope do
    declareParams params
    if usurping then withMode .usurping (checkStmts body) else checkStmts body

/-- The type a routine is written to return. -/
def resultType (type : Option TypeExpr) : Check Ty :=
  match type with
  | some type => typeOrUnknown type
  | none => return .blank

/-- Declares a routine, and gives the types of its parameters and of what it returns. -/
def declareRoutine (routine : Routine) : Check (List Ty × Ty) := do
  let language ← language
  require (!routine.usurping || language.supportsUsurping) (.unsupported .usurpingRoutine language)
    routine.span
  let params ← paramTypes routine.params
  let result ← resultType routine.result
  declare { Symbol.routine routine.name.name (.routine params result) routine.usurping
      routine.name.span with visibility := routine.visibility }
  return (params, result)

/-- A routine is declared before its body is checked, so it may call itself. -/
def checkRoutine (routine : Routine) : Check Unit := do
  let (params, result) ← declareRoutine routine
  match routine.body with
  | none => return
  | some body =>
      inRoutine result (checkBody (routine.params.zip params) routine.usurping body)

def declareTypeParams : List Ident → Check Unit
  | [] => return
  | param :: params => do
      reporting (declare (Symbol.basic param.name (.param param.name) param.span))
      declareTypeParams params

/-- Resolves the types of fields, after those in `done`. A field does not hold a token, but stays.
-/
def checkFields : List FieldDecl → (done : List (String × Ty)) → Check (List (String × Ty))
  | [], done => return done
  | field :: fields, done => do
      if done.any (·.1 == field.name.name) then do
        report (.duplicateDeclaration field.name.name) field.name.span
        checkFields fields done
      else do
        let ty ← typeOrUnknown field.type
        require (!ty.isToken) (.misuse (.tokenField field.name.name)) field.type.span
        checkFields fields (done ++ [(field.name.name, ty)])

/-- A type is declared before its fields are checked, so they may refer to it. -/
def checkTypeDecl (decl : TypeDecl) : Check Unit := do
  declare { Symbol.composite decl.semantics decl.name.name [] decl.paramNames decl.name.span with
    visibility := decl.visibility }
  let fields ← withScope do
    declareTypeParams decl.params
    checkFields decl.fields []
  modify fun state =>
    { state with table := state.table.update decl.name.name (Symbol.setFields fields) }

def checkDecl : Decl → Check Unit
  | .routine routine => checkRoutine routine
  | .type decl => checkTypeDecl decl
  | .var decl => checkVar decl

end Custody.Check
