import Custody.Check.Access

/-! Checking of expressions. The use tells what becomes of the value. -/

namespace Custody.Check

/-- The type of a name used as a value. -/
def checkIdent (name : String) (use : Use) (span : Span) : Check Ty := do
  let symbol ← lookup name span
  match symbol.kind with
  | .var _ _ => do
      useSymbol symbol use span
      return symbol.ty
  | .routine _ => return symbol.ty
  | .basic | .composite _ _ _ => fail (.misuse (.typeAsValue name)) span
  | .module path => fail (.misuse (.moduleAsValue path)) span

/-- If the expression is a name for a module, that name and the path of the module. -/
def namedModule (object : Expr) : Check (Option (String × String)) := do
  let state ← state
  return object.asIdent.bind fun name =>
    ((state.table.find? name).bind (·.module?)).map fun path => (name, path)

/-- The type of a value that a module exports. -/
def checkQualified (qualifier path : String) (property : Ident) : Check Ty := do
  let symbol ← moduleMember path property
  match symbol.kind with
  | .routine _ | .var _ _ => return symbol.ty
  | _ => fail (.misuse (.typeAsValue (qualifier ++ "." ++ property.name))) property.span

/-- A type is not called like a routine. -/
def rejectTypeCallee (callee : Expr) : Check Unit := do
  let state ← state
  match callee.asIdent.bind state.table.find? with
  | some symbol =>
      if symbol.isType then fail (.notCallable callee.spelled) callee.span else return
  | none => return

/-- A variable that is lent to a parameter that writes must be writable itself. -/
def checkLend (param : Ty) (arg : Expr) : Check Unit := do
  let state ← state
  match arg.asIdent with
  | none => return
  | some name =>
      match state.table.find? name with
      | none => return
      | some symbol =>
          require
            (!(param.access?.any (·.writes) && symbol.isVar && symbol.access?.isNone &&
              !symbol.isMutable))
            (.assignToImmutable name) arg.span

/-- Passes an argument whose type has been found. -/
def passArgument (param : Ty) (arg : Expr) (found : Option Ty) : Check Unit :=
  match found with
  | none => return
  | some ty =>
      if !param.accepts ty then report (.typeMismatch param ty) arg.span
      else if param.isToken then checkLend param arg
      else takeOver arg

/-- Gives a value to a field of a new value. -/
def initField (owner : Ty) (fields : List (String × Ty)) (name : Ident) (value : Expr)
    (found : Option Ty) : Check Unit :=
  match fields.lookup name.name with
  | none => report (.unknownMember owner name.name) name.span
  | some field =>
      match found with
      | none => return
      | some ty =>
          if !field.accepts ty then report (.typeMismatch field ty) value.span
          else takeOver value

/-- Reports the fields that have been given no value. -/
def reportMissing (type : String) (seen : List String) (span : Span) :
    List (String × Ty) → Check Unit
  | [] => return
  | (field, _) :: fields => do
      require (field ∈ seen) (.misuse (.missingField field type)) span
      reportMissing type seen span fields

/-- Raw memory is used in unsafe blocks only. -/
def requireUnsafe (op : RawOp) (span : Span) : Check Unit := do
  let state ← state
  require (state.modes.satisfies .dangerOrMayhem) (.modeRequired (.raw op) .dangerOrMayhem) span

/-- The type in which raw memory is read or written. -/
def rawType (op : RawOp) (type : Option TypeExpr) (span : Span) : Check Ty :=
  match type with
  | some type => rule (·.table.resolve type)
  | none => fail (.misuse (.missingTypeArgument op)) span

/-- An address is an unsigned or signed address number or an integer literal. -/
def expectAddress (ty : Ty) (span : Span) : Check Unit :=
  if ty.strip = .num .uaddr ∨ ty.strip = .num .saddr ∨ ty.strip = .intLiteral ∨
      ty.strip = .unknown then pure ()
  else fail (.typeMismatch (.num .uaddr) ty) span

mutual
/-- The type of an expression whose value is used as `use` says. -/
def checkExpr : Expr → Use → Check Ty
  | .literal _ value, _ => pure value.ty
  | .ident span name, use => checkIdent name use span
  | .paren _ inner, use => checkExpr inner use
  | .binary span left op right, _ => do
      let left ← checkExpr left .read
      let right ← checkExpr right .read
      judge (Ty.binary left op right) span
  | .unary span op operand, _ => do
      let operand ← checkExpr operand .read
      judge (Ty.unary op operand) span
  | .call span callee args, _ => do
      rejectTypeCallee callee
      let ty ← checkExpr callee .read
      match ty.strip with
      | .routine params result => do
          require (params.length == args.length)
            (.arityMismatch callee.spelled params.length args.length) span
          checkArgs args params
          return result
      | .unknown => do
          checkLooseArgs args
          return .unknown
      | _ => fail (.notCallable callee.spelled) callee.span
  | .member _ object property, _ => do
      match ← namedModule object with
      | some (name, path) => checkQualified name path property
      | none => do
          let object ← checkExpr object .read
          memberType object property
  | .index span object position, _ => do
      let ty ← checkExpr object .read
      let positionTy ← checkExpr position .read
      elementType ty positionTy position.span span
  | .construct span type inits, _ => do
      let symbol ← lookup type.name type.span
      match symbol.fields? with
      | none => fail (.notCallable type.name) type.span
      | some fields => do
          let seen ← checkInits symbol.ty fields inits []
          reportMissing type.name seen span fields
          return symbol.ty
  | .convert span operand target, _ => do
      let source ← checkExpr operand .read
      let target ← rule (·.table.resolve target)
      judge (Ty.convert source target) span
      return target
  | .raw span op type args, _ => do
      requireUnsafe op span
      match op, args with
      | .addressOf, [arg] =>
          if arg.asIdent.isNone then fail (.misuse .addressOfNonVariable) arg.span
          else do
            let _ ← checkExpr arg .read
            return .num .uaddr
      | .readAs, [address] => do
          let target ← rawType op type span
          let ty ← checkExpr address .read
          expectAddress ty address.span
          return target
      | .writeAs, [address, value] => do
          let target ← rawType op type span
          let ty ← checkExpr address .read
          expectAddress ty address.span
          let found ← checkExpr value (.argument false)
          judge (target.expect found) value.span
          return .blank
      | _, _ => fail (.arityMismatch op.render op.arity args.length) span
  | .access span kind source token body, _ => do
      let depth ← depth
      withAccess span kind source token (checkExpr body (.store depth))

/-- Checks arguments against the parameters they are passed to. -/
def checkArgs : List Expr → List Ty → Check Unit
  | [], _ => return
  | arg :: args, [] => do
      let _ ← attempt (checkExpr arg .read)
      checkArgs args []
  | arg :: args, param :: params => do
      let found ← attempt (checkExpr arg (.argument param.isToken))
      passArgument param arg found
      checkArgs args params

/-- Checks arguments of a callee of which nothing is known. -/
def checkLooseArgs : List Expr → Check Unit
  | [] => return
  | arg :: args => do
      let _ ← attempt (checkExpr arg (.argument false))
      checkLooseArgs args

/-- Checks the values given to the fields of a new value of type `owner`. The result is the names
that were given one, after those in `seen`. -/
def checkInits (owner : Ty) (fields : List (String × Ty)) :
    List (FieldInit Expr) → (seen : List String) → Check (List String)
  | [], seen => return seen
  | ⟨name, value⟩ :: inits, seen => do
      let found ← attempt (checkExpr value (.argument false))
      if name.name ∈ seen then do
        report (.duplicateDeclaration name.name) name.span
        checkInits owner fields inits seen
      else do
        initField owner fields name value found
        checkInits owner fields inits (seen ++ [name.name])
end

end Custody.Check
