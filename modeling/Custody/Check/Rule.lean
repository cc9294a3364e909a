import Custody.Check.Basic
import Custody.Ty.Operation

/-! Rules that look at the state without changing it: written types, members and the use of
variables. -/

namespace Custody

namespace Table

mutual
/-- The type that a type expression means here. -/
def resolve (table : Table) : TypeExpr → Except Diagnostic Ty
  | .blank _ => .ok .blank
  | .named span name args => do
      let args ← resolveAll table args
      match Access.ofTokenName? name.name with
      | some access =>
          match args with
          | [inner] => return .token access inner
          | _ => .error ⟨.arityMismatch name.name 1 args.length, span⟩
      | none =>
          match table.find? name.name with
          | none => .error ⟨.undefinedSymbol name.name, name.span⟩
          | some symbol =>
              if !symbol.isType then .error ⟨.misuse (.notAType name.name), name.span⟩
              else if args.isEmpty then return symbol.ty
              else if args.length ≠ symbol.params.length then
                .error ⟨.arityMismatch name.name symbol.params.length args.length, span⟩
              else return .named name.name args

def resolveAll (table : Table) : List TypeExpr → Except Diagnostic (List Ty)
  | [] => .ok []
  | t :: ts => do
      let ty ← table.resolve t
      let tys ← resolveAll table ts
      return ty :: tys
end

/-- The type of a field. The parameters of the type are replaced by the arguments it has here. -/
def memberType (table : Table) (object : Ty) (property : Ident) : Except Diagnostic Ty :=
  let base := object.strip
  let missing : Diagnostic := ⟨.unknownMember base property.name, property.span⟩
  match base with
  | .unknown => .ok .unknown
  | .named name args =>
      match table.find? name with
      | none => .error missing
      | some symbol =>
          match (symbol.fields?.getD []).lookup property.name with
          | none => .error missing
          | some field => .ok (field.subst (symbol.params.zip args))
  | _ => .error missing

/-- Whether taking over the value of this variable moves it away. -/
def isMovable (table : Table) (symbol : Symbol) : Bool :=
  symbol.isVar && symbol.access?.isNone && table.isReference symbol.ty

end Table

namespace State

/-- A variable must have its value and must not be held, and a token must not escape. Tokens that no
construct here has opened (parameters, copies) keep the same rules as those that are alive. -/
def checkUse (state : State) (symbol : Symbol) (use : Use) : Except Fault Unit :=
  if symbol.isMoved then .error (.useAfterMove symbol.name)
  else
    let usurping := state.modes.isActive .usurping
    match state.ledger.checkUse symbol.key state.depth use usurping with
    | .error violation => .error (.ofViolation violation)
    | .ok () =>
        match state.ledger.token? symbol.key, symbol.access? with
        | none, some access =>
            match Ledger.checkTokenUse symbol.name access symbol.depth state.depth use usurping with
            | .error violation => .error (.ofViolation violation)
            | .ok () => .ok ()
        | _, _ => .ok ()

end State

namespace Check

/-- The type that a type expression means; unknown, after a report, if it means none. -/
def typeOrUnknown (type : TypeExpr) : Check Ty := do
  let ty ← attempt (rule (·.table.resolve type))
  return ty.getD .unknown

def memberType (object : Ty) (property : Ident) : Check Ty :=
  rule (·.table.memberType object property)

/-- Uses a variable. -/
def useSymbol (symbol : Symbol) (use : Use) (span : Span) : Check Unit := do
  let state ← state
  judge (state.checkUse symbol use) span

/-- Takes a value over from the expression `value`. If the language moves and this is a variable of
reference semantics, the variable is left without its value. -/
def takeOver (value : Expr) : Check Unit := fun env state =>
  match value.asIdent with
  | none => (.ok (), state)
  | some name =>
      match state.table.find? name with
      | none => (.ok (), state)
      | some symbol =>
          if env.language.moves && state.table.isMovable symbol then
            setState name .moved value.span env state
          else (.ok (), state)

/-- The element that an index of type `position` takes out of an `object`. -/
def elementType (object position : Ty) (positionSpan span : Span) : Check Ty :=
  let position := position.strip
  if !position.isInteger && position ≠ .unknown then
    fail (.typeMismatch (.num .uaddr) position) positionSpan
  else
    match object.element? with
    | some t => pure t
    | none => fail (.misuse (.notIndexable object)) span

/-- The exported symbol that a qualified name stands for. -/
def moduleMember (path : String) (property : Ident) : Check Symbol := do
  let env ← env
  match env.member? path property.name with
  | some symbol => return symbol
  | none => fail (.undefinedSymbol (path ++ "." ++ property.name)) property.span

end Check

end Custody
