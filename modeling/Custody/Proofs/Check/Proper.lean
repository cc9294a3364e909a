import Custody.Proofs.Check.Ensures

/-! Checking expressions and statements keeps the state proper, and the types that are found on the way
are closed. -/

namespace Custody

namespace Check

variable {α : Type} {env : Env} {good : Table → Prop}

/-! ### Rules -/

theorem lookup_ensures (name : String) (span : Span) :
    Ensures env (Table.Proper env.language) (Symbol.Proper env.language) (lookup name span) := by
  apply Maintains.rule
  · intro s symbol hs h
    cases hfind : s.table.find? name with
    | none =>
        rw [hfind] at h
        cases h
    | some found =>
        rw [hfind] at h
        cases h
        exact hs.table.find? hfind
  · intro s diagnostic h
    cases hfind : s.table.find? name with
    | none =>
        rw [hfind] at h
        cases h
        exact .ordinary ⟨rfl, rfl, rfl⟩
    | some found =>
        rw [hfind] at h
        cases h

theorem resolve_ensures (type : TypeExpr) : FindsClosed env (rule (·.table.resolve type)) :=
  .rule
    (fun _ _ hs h => Table.isClosed_resolve (fun _ _ hfind => (hs.table.find? hfind).closed) h)
    fun _ _ h => .ordinary (Table.resolve_ordinary h)

theorem typeOrUnknown_ensures (type : TypeExpr) : FindsClosed env (typeOrUnknown type) :=
  (resolve_ensures type).attempt.bind fun found hfound => .pure (by
    cases found with
    | none => rfl
    | some ty => exact hfound ty rfl)

/-- Whatever the table is, resolving a type does not change it. -/
theorem typeOrUnknown_upholds (type : TypeExpr) :
    Ensures env good (fun _ => True) (typeOrUnknown type) :=
  (Maintains.rule (Q := fun _ => True) (fun _ _ _ _ => trivial) fun _ _ h =>
    .ordinary (Table.resolve_ordinary h)).attempt.seq fun _ => .pure trivial

theorem memberType_ensures {object : Ty} (hobject : object.isClosed = true) (property : Ident) :
    FindsClosed env (memberType object property) :=
  .rule (fun _ _ _ h => Table.isClosed_memberType hobject h) fun _ _ h =>
    .ordinary (Table.memberType_ordinary h)

theorem useSymbol_ensures {symbol : Symbol} (hsymbol : symbol.Proper env.language) (use : Use)
    (span : Span) : Upholds env (useSymbol symbol use span) :=
  Maintains.state.bind fun _ _ => .judge (fun _ _ => trivial) fun _ h =>
    .proper fun hmoves => (State.checkUse_ordinary (hsymbol.live hmoves) h).notMoved

theorem takeOver_ensures (value : Expr) : Upholds env (takeOver value) := by
  refine .of_ok fun s hs => ⟨(), ?_⟩
  rcases takeOver_apply value env s with hrun | ⟨name, symbol, -, -, hmoves, -, hrun⟩
  · rw [hrun]
    exact ⟨rfl, trivial, hs⟩
  · rw [hrun]
    refine ⟨rfl, trivial, hs.table.update fun _ h => h.setState fun hno => ?_, hs.result, hs.reports⟩
    rw [hmoves] at hno
    cases hno

theorem elementType_ensures {object : Ty} (hobject : object.isClosed = true) (position : Ty)
    (positionSpan span : Span) : FindsClosed env (elementType object position positionSpan span) := by
  unfold elementType
  simp only
  split
  · exact .fail (.ordinary ⟨rfl, rfl, rfl⟩)
  · cases helement : object.element? with
    | none => exact .fail (.ordinary ⟨rfl, rfl, rfl⟩)
    | some element => exact .pure (Ty.isClosed_element? hobject helement)

/-- Importers see proper symbols, whatever the module is. -/
theorem moduleMember_ensures (path : String) (property : Ident) :
    Ensures env (Table.Proper env.language) (Symbol.Proper env.language)
      (moduleMember path property) := by
  refine .surroundings ?_
  split
  · rename_i symbol hmember
    obtain ⟨decl, rfl⟩ := env.exists_decl_of_member? hmember
    exact .pure (Symbol.proper_symbol env.language decl)
  · exact .fail (.ordinary ⟨rfl, rfl, rfl⟩)

/-! ### Access -/

theorem declareToken_ensures {inner : Ty} (hinner : inner.isClosed = true) (token : Ident)
    (kind : Access) : Upholds env (declareToken token kind inner) :=
  .reporting (Ensures.declare (.var hinner))

theorem accessSource_ensures (kind : Access) (source : Ident) :
    Ensures env (Table.Proper env.language)
      (fun found => ∀ symbol, found = some symbol → symbol.Proper env.language)
      (accessSource kind source) := by
  refine Maintains.state.bind fun s hs => ?_
  cases hfind : s.table.find? source.name with
  | none => exact Maintains.seq (.report (.ordinary ⟨rfl, rfl, rfl⟩)) fun _ => .pure fun _ h => nomatch h
  | some symbol =>
      simp only
      split
      · refine .pure fun found hfound => ?_
        cases hfound
        exact hs.table.find? hfind
      · exact Maintains.seq (.report (.ordinary ⟨rfl, rfl, rfl⟩)) fun _ => .pure fun _ h => nomatch h

theorem checkReborrow_ensures (symbol : Symbol) (kind : Access) (source : Ident) :
    Upholds env (checkReborrow symbol kind source) := by
  unfold checkReborrow
  split
  · exact .require fun _ => .proper fun _ => rfl
  · exact .pure trivial

theorem enterAccess_ensures (symbol : Symbol) (kind : Access) (source token : Ident) :
    Upholds env (enterAccess symbol kind source token) := by
  refine .of_ok fun s hs => ?_
  unfold enterAccess
  split
  · exact ⟨_, rfl, trivial, hs.table, hs.result, hs.reports⟩
  · refine ⟨_, rfl, trivial, State.Proper.report ?_ (Fault.ofViolation_ordinary _).proper⟩
    exact ⟨hs.table, hs.result, hs.reports⟩

theorem beginAccess_ensures (kind : Access) (source token : Ident) :
    Upholds env (beginAccess kind source token) := by
  refine Maintains.state.bind fun s _ =>
    (Maintains.require fun _ => .proper fun _ => rfl).seq fun _ => ?_
  refine (accessSource_ensures kind source).bind fun found hfound => ?_
  cases found with
  | none => exact (declareToken_ensures rfl token kind).seq fun _ => .pure trivial
  | some symbol =>
      have hsymbol := hfound symbol rfl
      have hlive : Upholds env
          (require (!symbol.isMoved) (.useAfterMove source.name) source.span) := by
        refine .require fun hmoved => .proper fun hmoves => ?_
        rw [hsymbol.live hmoves] at hmoved
        cases hmoved
      refine hlive.seq fun _ => (checkReborrow_ensures symbol kind source).seq
        fun _ => (enterAccess_ensures symbol kind source token).seq fun opened => ?_
      refine (declareToken_ensures ?_ token kind).seq fun _ => .pure trivial
      rw [Ty.isClosed_strip]
      exact hsymbol.closed

theorem Ensures.endAccess {Q : α → Prop} {opened : Option Binding} {check : Check α}
    (h : Ensures env good Q check) :
    Ensures env good Q (Check.bracket id (fun _ left => Check.endAccess opened left) check) := by
  refine h.around (fun _ hs => hs) fun _ t _ ht => ?_
  cases opened with
  | none => exact ht
  | some key => exact ⟨ht.table, ht.result, ht.reports⟩

theorem Ensures.withAccess {Q : α → Prop} {span : Span} {kind : Access} {source token : Ident}
    {check : Check α} (h : Ensures env (Table.Proper env.language) Q check) :
    Ensures env (Table.Proper env.language) Q (Check.withAccess span kind source token check) :=
  .language ((Maintains.require fun _ => .proper fun _ => rfl).seq fun _ =>
    Ensures.inScope ((beginAccess_ensures kind source token).seq fun _ => h.endAccess))

/-! ### Expressions -/

theorem checkIdent_ensures (name : String) (use : Use) (span : Span) :
    FindsClosed env (checkIdent name use span) := by
  refine (lookup_ensures name span).bind fun symbol hsymbol => ?_
  split
  · exact (useSymbol_ensures hsymbol use span).seq fun _ => .pure hsymbol.closed
  · exact .pure hsymbol.closed
  · exact .fail (.ordinary ⟨rfl, rfl, rfl⟩)
  · exact .fail (.ordinary ⟨rfl, rfl, rfl⟩)
  · exact .fail (.ordinary ⟨rfl, rfl, rfl⟩)

theorem namedModule_ensures (object : Expr) : Upholds env (namedModule object) :=
  Maintains.state.seq fun _ => .pure trivial

theorem checkQualified_ensures (qualifier path : String) (property : Ident) :
    FindsClosed env (checkQualified qualifier path property) := by
  refine (moduleMember_ensures path property).bind fun symbol hsymbol => ?_
  split
  · exact .pure hsymbol.closed
  · exact .pure hsymbol.closed
  · exact .fail (.ordinary ⟨rfl, rfl, rfl⟩)

theorem rejectTypeCallee_ensures (callee : Expr) : Upholds env (rejectTypeCallee callee) := by
  refine Maintains.state.seq fun s => ?_
  split
  · split
    · exact .fail (.ordinary ⟨rfl, rfl, rfl⟩)
    · exact .pure trivial
  · exact .pure trivial

theorem checkLend_ensures (param : Ty) (arg : Expr) : Upholds env (checkLend param arg) := by
  refine Maintains.state.seq fun s => ?_
  split
  · exact .pure trivial
  · split
    · exact .pure trivial
    · exact .require fun _ => .proper fun _ => rfl

theorem passArgument_ensures (param : Ty) (arg : Expr) (found : Option Ty) :
    Upholds env (passArgument param arg found) := by
  unfold passArgument
  split
  · exact .pure trivial
  · split
    · exact .report (.ordinary ⟨rfl, rfl, rfl⟩)
    · split
      · exact checkLend_ensures param arg
      · exact takeOver_ensures arg

theorem initField_ensures (owner : Ty) (fields : List (String × Ty)) (name : Ident) (value : Expr)
    (found : Option Ty) : Upholds env (initField owner fields name value found) := by
  unfold initField
  split
  · exact .report (.ordinary ⟨rfl, rfl, rfl⟩)
  · split
    · exact .pure trivial
    · split
      · exact .report (.ordinary ⟨rfl, rfl, rfl⟩)
      · exact takeOver_ensures value

theorem reportMissing_ensures (type : String) (seen : List String) (span : Span)
    (fields : List (String × Ty)) : Upholds env (reportMissing type seen span fields) := by
  induction fields with
  | nil => exact .pure trivial
  | cons field fields ih => exact (Maintains.require fun _ => .proper fun _ => rfl).seq fun _ => ih

theorem requireUnsafe_ensures (op : RawOp) (span : Span) : Upholds env (requireUnsafe op span) :=
  Maintains.state.seq fun _ => .require fun _ => .proper fun _ => rfl

theorem rawType_ensures (op : RawOp) (type : Option TypeExpr) (span : Span) :
    FindsClosed env (rawType op type span) := by
  cases type with
  | none => exact .fail (.ordinary ⟨rfl, rfl, rfl⟩)
  | some type => exact resolve_ensures type

theorem expectAddress_ensures (ty : Ty) (span : Span) : Upholds env (expectAddress ty span) := by
  unfold expectAddress
  split
  · exact .pure trivial
  · exact .fail (.ordinary ⟨rfl, rfl, rfl⟩)

theorem expect_ensures (target value : Ty) (span : Span) :
    Upholds env (judge (target.expect value) span) :=
  .judge (fun _ _ => trivial) fun _ h => .ordinary (Ty.expect_ordinary h)

mutual
theorem checkExpr_ensures : ∀ (expr : Expr) (use : Use),
    FindsClosed env (checkExpr expr use)
  | .literal _ value, use => by
      rw [checkExpr]
      exact .pure value.isClosed_ty
  | .ident span name, use => by
      rw [checkExpr]
      exact checkIdent_ensures name use span
  | .paren _ inner, use => by
      rw [checkExpr]
      exact checkExpr_ensures inner use
  | .binary span left op right, use => by
      rw [checkExpr]
      refine (checkExpr_ensures left .read).bind fun l hl =>
        (checkExpr_ensures right .read).bind fun r hr => ?_
      exact .judge (fun _ h => Ty.isClosed_binary hl hr h) fun _ h =>
        .ordinary (Ty.binary_ordinary h)
  | .unary span op operand, use => by
      rw [checkExpr]
      refine (checkExpr_ensures operand .read).bind fun ty hty => ?_
      exact .judge (fun _ h => Ty.isClosed_unary hty h) fun _ h => .ordinary (Ty.unary_ordinary h)
  | .call span callee args, use => by
      rw [checkExpr]
      refine (rejectTypeCallee_ensures callee).seq fun _ =>
        (checkExpr_ensures callee .read).bind fun ty hty => ?_
      rw [← Ty.isClosed_strip] at hty
      split
      · rename_i params result hroutine
        rw [hroutine, Ty.isClosed_routine] at hty
        exact (Maintains.require fun _ => .proper fun _ => rfl).seq fun _ =>
          (checkArgs_ensures args params).seq fun _ => .pure hty.2
      · exact (checkLooseArgs_ensures args).seq fun _ => .pure rfl
      · exact .fail (.ordinary ⟨rfl, rfl, rfl⟩)
  | .member _ object property, use => by
      rw [checkExpr]
      refine (namedModule_ensures object).seq fun found => ?_
      split
      · exact checkQualified_ensures _ _ property
      · exact (checkExpr_ensures object .read).bind fun ty hty =>
          memberType_ensures hty property
  | .index span object position, use => by
      rw [checkExpr]
      exact (checkExpr_ensures object .read).bind fun ty hty =>
        (checkExpr_ensures position .read).seq fun positionTy =>
          elementType_ensures hty positionTy _ _
  | .construct span type inits, use => by
      rw [checkExpr]
      refine (lookup_ensures type.name type.span).bind fun symbol hsymbol => ?_
      split
      · exact .fail (.ordinary ⟨rfl, rfl, rfl⟩)
      · rename_i fields hfields
        exact (checkInits_ensures symbol.ty fields inits []).seq fun seen =>
          (reportMissing_ensures _ seen span fields).seq fun _ => .pure hsymbol.closed
  | .convert span operand target, use => by
      rw [checkExpr]
      refine (checkExpr_ensures operand .read).seq fun source =>
        (resolve_ensures target).bind fun ty hty => ?_
      have hconvert : Upholds env (judge (source.convert ty) span) :=
        .judge (fun _ _ => trivial) fun _ h => .ordinary (Ty.convert_ordinary h)
      exact hconvert.seq fun _ => .pure hty
  | .raw span .addressOf type [arg], use => by
      rw [checkExpr]
      refine (requireUnsafe_ensures _ span).seq fun _ => ?_
      split
      · exact .fail (.ordinary ⟨rfl, rfl, rfl⟩)
      · exact (checkExpr_ensures arg .read).seq fun _ => .pure rfl
  | .raw span .readAs type [address], use => by
      rw [checkExpr]
      refine (requireUnsafe_ensures _ span).seq fun _ => ?_
      refine (rawType_ensures _ type span).bind fun target htarget => ?_
      refine (checkExpr_ensures address .read).seq fun ty => ?_
      exact (expectAddress_ensures ty _).seq fun _ => .pure htarget
  | .raw span .writeAs type [address, value], use => by
      rw [checkExpr]
      refine (requireUnsafe_ensures _ span).seq fun _ => ?_
      refine (rawType_ensures _ type span).seq fun target => ?_
      refine (checkExpr_ensures address .read).seq fun ty => ?_
      refine (expectAddress_ensures ty _).seq fun _ => ?_
      refine (checkExpr_ensures value (.argument false)).seq fun found => ?_
      exact (expect_ensures target found _).seq fun _ => .pure rfl
  -- the wrong number of operands
  | .raw span .addressOf _ [], _ | .raw span .addressOf _ (_ :: _ :: _), _
  | .raw span .readAs _ [], _ | .raw span .readAs _ (_ :: _ :: _), _
  | .raw span .writeAs _ [], _ | .raw span .writeAs _ [_], _
  | .raw span .writeAs _ (_ :: _ :: _ :: _), _ => by
      unfold checkExpr
      exact (requireUnsafe_ensures _ span).seq fun _ => .fail (.ordinary ⟨rfl, rfl, rfl⟩)
  | .access span kind source token body, use => by
      rw [checkExpr]
      exact .depth fun depth => (checkExpr_ensures body (.store depth)).withAccess

theorem checkArgs_ensures : ∀ (args : List Expr) (params : List Ty),
    Upholds env (checkArgs args params)
  | [], params => by
      rw [checkArgs]
      exact .pure trivial
  | arg :: args, [] => by
      rw [checkArgs]
      exact (checkExpr_ensures arg .read).attempt.seq fun _ => checkArgs_ensures args []
  | arg :: args, param :: params => by
      rw [checkArgs]
      exact (checkExpr_ensures arg (.argument param.isToken)).attempt.seq fun found =>
        (passArgument_ensures param arg found).seq fun _ => checkArgs_ensures args params

theorem checkLooseArgs_ensures : ∀ args : List Expr,
    Upholds env (checkLooseArgs args)
  | [] => by
      rw [checkLooseArgs]
      exact .pure trivial
  | arg :: args => by
      rw [checkLooseArgs]
      exact (checkExpr_ensures arg (.argument false)).attempt.seq fun _ =>
        checkLooseArgs_ensures args

theorem checkInits_ensures (owner : Ty) (fields : List (String × Ty)) :
    ∀ (inits : List (FieldInit Expr)) (seen : List String),
      Upholds env (checkInits owner fields inits seen)
  | [], seen => by
      rw [checkInits]
      exact .pure trivial
  | ⟨name, value⟩ :: inits, seen => by
      rw [checkInits]
      refine (checkExpr_ensures value (.argument false)).attempt.seq fun found => ?_
      split
      · exact Maintains.seq (.report (.ordinary ⟨rfl, rfl, rfl⟩)) fun _ =>
          checkInits_ensures owner fields inits seen
      · exact (initField_ensures owner fields name value found).seq fun _ =>
          checkInits_ensures owner fields inits (seen ++ [name.name])
end

/-! ### Statements -/

theorem checkCondition_ensures (condition : Expr) : Upholds env (checkCondition condition) :=
  (checkExpr_ensures condition .read).seq fun ty => expect_ensures .bool ty _

theorem bindDeclared_ensures {declared found : Ty} (hdeclared : declared.isClosed = true)
    (hfound : found.isClosed = true) (init : Expr) :
    Ensures env (Table.Proper env.language) (fun bound => bound.1.isClosed = true)
      (bindDeclared declared init found) := by
  refine Maintains.state.seq fun s => ?_
  split
  · exact Maintains.seq (.report (.ordinary ⟨rfl, rfl, rfl⟩)) fun _ => .pure hdeclared
  · split
    · exact Maintains.seq (.report (.ordinary ⟨rfl, rfl, rfl⟩)) fun _ => .pure hdeclared
    · split
      · exact .pure hfound
      · exact .pure hdeclared

theorem declaredType_ensures (type : Option TypeExpr) :
    Ensures env (Table.Proper env.language)
      (fun declared => ∀ ty, declared = some ty → ty.isClosed = true) (declaredType type) := by
  cases type with
  | none => exact .pure fun _ h => nomatch h
  | some type =>
      refine (typeOrUnknown_ensures type).map fun ty hty found h => ?_
      cases h
      exact hty

theorem initType_ensures {declared : Option Ty}
    (hdeclared : ∀ ty, declared = some ty → ty.isClosed = true) (init : Expr) :
    FindsClosed env (initType declared init) := by
  refine .depth fun depth => (checkExpr_ensures init (.store depth)).attempt.bind
    fun found hfound => ?_
  split
  · exact .pure (hdeclared _ rfl)
  · refine (bindDeclared_ensures (hdeclared _ rfl) (hfound _ rfl) init).bind fun bound hbound => ?_
    simp only
    split
    · exact (takeOver_ensures init).seq fun _ => .pure hbound
    · exact .pure hbound
  · exact .pure rfl
  · exact .language ((takeOver_ensures init).seq fun _ =>
      .pure (Language.isClosed_settle _ (hfound _ rfl)))

theorem varType_ensures (decl : VarDecl) : FindsClosed env (varType decl) := by
  refine (declaredType_ensures decl.type).bind fun declared hdeclared => ?_
  split
  · exact initType_ensures hdeclared _
  · exact .pure (hdeclared _ rfl)
  · exact Maintains.seq (.report (.ordinary ⟨rfl, rfl, rfl⟩)) fun _ => .pure rfl

theorem checkVar_ensures (decl : VarDecl) : Upholds env (checkVar decl) :=
  (varType_ensures decl).bind fun _ hty => Ensures.declare ⟨hty, fun _ => rfl⟩

/-- The type of a place is closed. -/
theorem checkPlace_ensures : ∀ place : Expr,
    Ensures env (Table.Proper env.language) (fun found => found.1.isClosed = true) (checkPlace place)
  | .paren _ inner => by
      rw [checkPlace]
      exact checkPlace_ensures inner
  | .ident span name => by
      rw [checkPlace]
      refine (lookup_ensures name span).bind fun symbol hsymbol => ?_
      split
      · exact .fail (.ordinary ⟨rfl, rfl, rfl⟩)
      · refine (useSymbol_ensures hsymbol .write span).seq fun _ => ?_
        split
        · exact .fail (.ordinary ⟨rfl, rfl, rfl⟩)
        · exact .pure hsymbol.closed
  | .member _ object property => by
      rw [checkPlace]
      exact (checkPlace_ensures object).bind fun place hplace =>
        (memberType_ensures hplace property).bind fun ty hty => .pure hty
  | .index span object position => by
      rw [checkPlace]
      exact (checkPlace_ensures object).bind fun place hplace =>
        (checkExpr_ensures position .read).seq fun positionTy =>
          (elementType_ensures hplace positionTy _ _).bind fun ty hty => .pure hty
  | .literal .. | .binary .. | .unary .. | .call .. | .construct .. | .convert .. | .raw ..
  | .access .. => .fail (.ordinary ⟨rfl, rfl, rfl⟩)

theorem checkTarget_ensures (name : String) (span : Span) :
    Ensures env (Table.Proper env.language) (fun found => found.1.isClosed = true)
      (checkTarget name span) := by
  refine (lookup_ensures name span).bind fun symbol hsymbol => ?_
  split
  · refine Maintains.state.seq fun s => ?_
    simp only
    split
    · exact .pure hsymbol.closed
    · exact .fail (.ordinary (Fault.ofViolation_ordinary _))
  · exact .fail (.ordinary ⟨rfl, rfl, rfl⟩)
  · exact .fail (.ordinary ⟨rfl, rfl, rfl⟩)

theorem revive_ensures (target : Expr) : Upholds env (revive target) := by
  refine .of_ok fun s hs => ⟨(), ?_⟩
  rcases revive_apply target env s with hrun | ⟨name, symbol, -, -, -, hrun⟩
  · rw [hrun]
    exact ⟨rfl, trivial, hs⟩
  · rw [hrun]
    exact ⟨rfl, trivial, hs.table.update fun _ h => h.setState fun _ => rfl, hs.result, hs.reports⟩

theorem assignValue_ensures (target value : Expr) (ty : Ty) (depth : Nat) :
    Upholds env (assignValue target value ty depth) := by
  refine (checkExpr_ensures value (.store depth)).seq fun found =>
    (expect_ensures ty found _).seq fun _ => Maintains.state.seq fun s => ?_
  split
  · exact .fail (.ordinary ⟨rfl, rfl, rfl⟩)
  · exact (takeOver_ensures value).seq fun _ => revive_ensures target

theorem assignTarget_ensures (target : Expr) : Upholds env (assignTarget target) := by
  unfold assignTarget
  split
  · exact (checkTarget_ensures _ _).mono fun _ _ => trivial
  · exact (checkPlace_ensures _).mono fun _ _ => trivial

theorem checkAssign_ensures (target value : Expr) : Upholds env (checkAssign target value) :=
  (assignTarget_ensures target).seq fun _ => assignValue_ensures target value _ _

theorem checkReturn_ensures (value : Option Expr) (span : Span) :
    Upholds env (checkReturn value span) := by
  refine Maintains.state.seq fun s => ?_
  split
  · exact .fail (.ordinary ⟨rfl, rfl, rfl⟩)
  · split
    · exact (checkExpr_ensures _ .give).seq fun found => expect_ensures _ found _
    · split
      · exact .pure trivial
      · exact .fail (.ordinary ⟨rfl, rfl, rfl⟩)

theorem checkPattern_ensures (pattern : Pattern) {subject : Ty} (hsubject : subject.isClosed = true) :
    Upholds env (checkPattern pattern subject) := by
  cases pattern with
  | otherwise => exact .pure trivial
  | literal => exact .require fun _ => .proper fun _ => rfl
  | binding => exact .reporting (Ensures.declare (.var hsubject))

theorem checkGuard_ensures (guard : Option Expr) : Upholds env (checkGuard guard) := by
  cases guard with
  | none => exact .pure trivial
  | some condition => exact .reporting (Ensures.withMode (checkCondition_ensures condition))

theorem requireUnsafeBlocks_ensures (construct : Construct) (span : Span) :
    Upholds env (requireUnsafeBlocks construct span) :=
  .language (.require fun _ => .proper fun _ => rfl)

theorem arm_ensures (pattern : Pattern) {subject : Ty}
    (hsubject : subject.isClosed = true) (guard : Option Expr) {body : List Stmt}
    (hbody : Upholds env (checkStmts body)) :
    Upholds env (do
      checkPattern pattern subject
      checkGuard guard
      checkStmts body) :=
  (checkPattern_ensures pattern hsubject).seq fun _ => (checkGuard_ensures guard).seq fun _ =>
    hbody

mutual
theorem checkStmt_ensures : ∀ stmt : Stmt, Upholds env (checkStmt stmt)
  | .expr _ value => by
      rw [checkStmt]
      exact (checkExpr_ensures value .read).seq fun _ => .pure trivial
  | .var _ decl => by
      rw [checkStmt]
      exact checkVar_ensures decl
  | .assign _ target value => by
      rw [checkStmt]
      exact checkAssign_ensures target value
  | .give span value => by
      rw [checkStmt]
      exact checkReturn_ensures value span
  | .branch _ condition body none => by
      rw [checkStmt]
      exact (Maintains.reporting (checkCondition_ensures condition)).seq fun _ =>
        (Ensures.inScope (checkStmts_ensures body)).seq fun _ => .pure trivial
  | .branch _ condition body (some stmt) => by
      rw [checkStmt]
      exact (Maintains.reporting (checkCondition_ensures condition)).seq fun _ =>
        (Ensures.inScope (checkStmts_ensures body)).seq fun _ => checkStmt_ensures stmt
  | .whileLoop _ condition body => by
      rw [checkStmt]
      exact (Maintains.reporting (checkCondition_ensures condition)).seq fun _ =>
        Ensures.inLoop (Ensures.inScope (checkStmts_ensures body))
  | .forLoop _ binding items body => by
      rw [checkStmt]
      refine (checkExpr_ensures items .read).bind fun ty hty => ?_
      split
      · exact .fail (.ordinary ⟨rfl, rfl, rfl⟩)
      · rename_i element helement
        have hbinding : Upholds env
            (declare (Symbol.var binding.name element false binding.span)) :=
          .declare (.var (Ty.isClosed_element? hty helement))
        exact Ensures.inScope (hbinding.reporting.seq fun _ =>
          Ensures.inLoop (checkStmts_ensures body))
  | .choose _ subject arms => by
      rw [checkStmt]
      exact (checkExpr_ensures subject .read).bind fun ty hty => checkArms_ensures hty arms
  | .block _ body => by
      rw [checkStmt]
      exact .inScope (checkStmts_ensures body)
  | .danger span body => by
      rw [checkStmt]
      exact (requireUnsafeBlocks_ensures .dangerBlock span).seq fun _ =>
        Ensures.withMode (Ensures.inScope (checkStmts_ensures body))
  | .mayhem span body => by
      rw [checkStmt]
      exact (requireUnsafeBlocks_ensures .mayhemBlock span).seq fun _ =>
        Ensures.withMode (Ensures.inScope (checkStmts_ensures body))
  | .access span kind source token body => by
      rw [checkStmt]
      exact (checkStmts_ensures body).withAccess
  | .leaveLoop span | .nextRound span => by
      rw [checkStmt]
      refine Maintains.state.seq fun s => ?_
      split
      · exact .fail (.ordinary ⟨rfl, rfl, rfl⟩)
      · exact .pure trivial
  | .raise _ value => by
      rw [checkStmt]
      exact (checkExpr_ensures value (.argument false)).seq fun _ => .pure trivial

theorem checkStmts_ensures : ∀ stmts : List Stmt, Upholds env (checkStmts stmts)
  | [] => by
      rw [checkStmts]
      exact .pure trivial
  | stmt :: stmts => by
      rw [checkStmts]
      exact (checkStmt_ensures stmt).reporting.seq fun _ => checkStmts_ensures stmts

theorem checkArms_ensures {subject : Ty} (hsubject : subject.isClosed = true) :
    ∀ arms : List (Arm Stmt), Upholds env (checkArms subject arms)
  | [] => by
      rw [checkArms]
      exact .pure trivial
  | ⟨pattern, guard, body⟩ :: arms => by
      rw [checkArms]
      exact (Ensures.inScope (arm_ensures pattern hsubject guard
        (checkStmts_ensures body))).seq fun _ => checkArms_ensures hsubject arms
end

end Check

end Custody
