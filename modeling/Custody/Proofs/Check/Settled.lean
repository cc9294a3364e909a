import Custody.Proofs.Check.Lasting
import Custody.Proofs.Ty.Settled

/-! Which types get into the table. As long as all types in the table are settled, the type that is
found for an expression is settled, or the expression is made of unsuffixed literals and its type is
that of a literal. A declaration, a loop, an access and an import put settled types into the table
only. A case of a `when` binds its name to whatever has been found, but in a scope of its own, so that
the table is as before when the statement has been checked. -/

namespace Custody

/-- All types in the table are settled. -/
structure State.Settled (s : State) : Prop where
  sound : s.Sound
  table : s.table.All Symbol.Settled

namespace State.Settled

variable {s t : State}

theorem kept (hs : s.Settled) (h : Kept Symbol.Similar 0 s t) : t.Settled :=
  ⟨h.sound hs.sound, hs.table.grown Symbol.Settled.similar h.table⟩

theorem openScope (s : State) (hs : s.Settled) : s.openScope.Settled :=
  ⟨hs.sound.openScope, hs.table.push⟩

theorem declare {symbol : Symbol} {key : Binding} {table : Table} (hs : s.Settled)
    (hsymbol : symbol.Settled) (hdeclare : s.table.declare symbol = .ok (key, table)) :
    { s with table }.Settled :=
  ⟨(Kept.declare Symbol.isChange_similar hdeclare).sound hs.sound,
    hs.table.declare hdeclare ⟨hsymbol.ty, hsymbol.fields⟩⟩

end State.Settled

/-- Whether the pattern gives a name to what it is matched with. -/
def Pattern.isBinding : Pattern → Bool
  | .binding _ _ => true
  | .otherwise _ | .literal _ _ => false

namespace Expr

/-- The expression is made of unsuffixed literals, so that its type is that of a literal. -/
def isFlexible : Expr → Bool
  | .literal _ value => value.ty.isFlexible
  | .paren _ inner => inner.isFlexible
  | .unary _ _ operand => operand.isFlexible
  | .binary _ left op right => op.joins && left.isFlexible && right.isFlexible
  | .access _ _ _ _ body => body.isFlexible
  | _ => false

/-- What can be found for an expression where all types in the table are settled. -/
def Finds (expr : Expr) (ty : Ty) : Prop :=
  ty.isSettled = true ∨ ty.isFlexible = true ∧ expr.isFlexible = true

variable {expr : Expr} {ty : Ty}

theorem Finds.isFixable (h : expr.Finds ty) : ty.isFixable = true :=
  Ty.isFixable_iff.2 (h.imp_right And.left)

theorem Finds.isFlexible (h : expr.Finds ty) (hty : ty.isFlexible = true) :
    expr.isFlexible = true := by
  rcases h with hsettled | ⟨-, hexpr⟩
  · rw [Ty.isFlexible_eq_false hsettled] at hty
    cases hty
  · exact hexpr

end Expr

namespace Check

variable {α : Type} {env : Env}

/-- The check finds a settled type. -/
abbrev FindsSettled (env : Env) (check : Check Ty) : Prop :=
  Maintains env State.Settled (fun ty => ty.isSettled = true) check

theorem stable_settled : Stable State.Settled where
  sound hs := hs.sound
  kept hs h := hs.kept h
  around hs htable hledger := ⟨hs.sound.around htable hledger, htable ▸ hs.table⟩
  scope hs := hs.openScope

theorem reportable_settled (diagnostic : Diagnostic) : Reportable State.Settled diagnostic :=
  stable_settled.reportable diagnostic

/-- A check that adds no symbols leaves the types in the table as they are. -/
theorem leaves_of_keeps {check : Check α}
    (h : ∀ s, Keeps env (Keeping Symbol.Similar 0) check s) : Leaves env State.Settled check :=
  stable_settled.of_keeps h

theorem declare_settles {symbol : Symbol} (h : symbol.Settled) :
    Leaves env State.Settled (declare symbol) :=
  declare_leaves (fun hs hdeclare => hs.declare h hdeclare) (reportable_settled _)

theorem lookup_settles (name : String) (span : Span) :
    Maintains env State.Settled Symbol.Settled (lookup name span) := by
  refine .rule (fun s symbol hs h => ?_) fun _ d _ => reportable_settled d
  split at h
  · rename_i hfind
    cases h
    exact hs.table.find? hfind
  · cases h

theorem resolve_settles (type : TypeExpr) : FindsSettled env (rule (·.table.resolve type)) :=
  .rule (fun _ _ hs h => Table.isSettled_resolve hs.table h) fun _ d _ => reportable_settled d

theorem typeOrUnknown_settles (type : TypeExpr) : FindsSettled env (typeOrUnknown type) := by
  refine (resolve_settles type).attempt.bind fun found hfound => .pure ?_
  cases found with
  | none => rfl
  | some ty => exact hfound ty rfl

theorem takeOver_settles (value : Expr) : Leaves env State.Settled (takeOver value) := by
  refine .of_ok fun s hs => ⟨(), ?_⟩
  rcases takeOver_apply value env s with hrun | ⟨name, symbol, -, -, -, -, hrun⟩
  · rw [hrun]
    exact ⟨rfl, trivial, hs⟩
  · rw [hrun]
    exact ⟨rfl, trivial,
      hs.kept (.of_table (.update Symbol.isChange_similar (Symbol.similar_setState .moved) _ _))⟩

/-! ### Accesses -/

/-- The table of the state is settled. While an access is being opened, the ledger is not yet in step
with the scopes. -/
def TableSettled (s : State) : Prop :=
  s.table.All Symbol.Settled

theorem reportable_tableSettled (diagnostic : Diagnostic) : Reportable TableSettled diagnostic :=
  fun _ hs => hs

theorem declareToken_settles (token : Ident) (kind : Access) {inner : Ty}
    (hinner : inner.isSettled = true) :
    Leaves env TableSettled (declareToken token kind inner) :=
  (declare_leaves (fun hs hdeclare => Table.All.declare hs hdeclare (.of_ty hinner rfl))
    (reportable_tableSettled _)).reporting

theorem accessSource_settles (kind : Access) (source : Ident) :
    Maintains env TableSettled (fun found => ∀ symbol, found = some symbol → symbol.Settled)
      (accessSource kind source) := by
  have hnone : Maintains env TableSettled
      (fun found => ∀ symbol : Symbol, found = some symbol → symbol.Settled) (pure none) :=
    .pure fun _ h => by cases h
  refine Maintains.state.bind fun s hs => ?_
  split
  · exact (Maintains.report (reportable_tableSettled _)).seq fun _ => hnone
  · rename_i symbol hfind
    split
    · refine .pure fun found hfound => ?_
      cases hfound
      exact Table.All.find? hs hfind
    · exact (Maintains.report (reportable_tableSettled _)).seq fun _ => hnone

theorem checkReborrow_settles (symbol : Symbol) (kind : Access) (source : Ident) :
    Leaves env TableSettled (checkReborrow symbol kind source) := by
  unfold checkReborrow
  split
  · exact .require fun _ => reportable_tableSettled _
  · exact .pure trivial

theorem enterAccess_settles (symbol : Symbol) (kind : Access) (source token : Ident) :
    Leaves env TableSettled (enterAccess symbol kind source token) := by
  refine .of_ok fun s hs => ?_
  unfold enterAccess
  split <;> exact ⟨_, rfl, trivial, hs⟩

/-- What is under a token is in the table already. -/
theorem beginAccess_settles (kind : Access) (source token : Ident) :
    Leaves env TableSettled (beginAccess kind source token) := by
  refine Maintains.state.bind fun _ _ =>
    (Maintains.require fun _ => reportable_tableSettled _).seq fun _ => ?_
  refine (accessSource_settles kind source).bind fun found hfound => ?_
  cases found with
  | none => exact (declareToken_settles token kind rfl).seq fun _ => .pure trivial
  | some symbol =>
      have hstrip : symbol.ty.strip.isSettled = true :=
        (Ty.isSettled_strip symbol.ty).trans (hfound symbol rfl).ty
      refine (Maintains.require fun _ => reportable_tableSettled _).seq fun _ => ?_
      refine (checkReborrow_settles symbol kind source).seq fun _ => ?_
      refine (enterAccess_settles symbol kind source token).seq fun _ => ?_
      exact (declareToken_settles token kind hstrip).seq fun _ => .pure trivial

theorem openAccess_settles (span : Span) (kind : Access) (source token : Ident) :
    Leaves env State.Settled (openAccess span kind source token) := by
  have htable : Leaves env TableSettled (openAccess span kind source token) :=
    .language ((Maintains.require fun _ => reportable_tableSettled _).seq fun _ =>
      (Maintains.modify fun _ hs => Table.All.push hs).seq fun _ =>
        beginAccess_settles kind source token)
  refine .of_ok fun s hs => ?_
  obtain ⟨opened, t, hrun, hopened⟩ := openAccess_opens span kind source token env s
  have ht : TableSettled t := htable.after hs.table hrun
  rw [hrun]
  exact ⟨opened, rfl, trivial, hopened.sound hs.sound, ht⟩

/-- Under an access a check has the value that it has in the scope of the token. -/
theorem withAccess_value {Q : α → Prop} {span : Span} {kind : Access} {source token : Ident}
    {check : Check α} {s : State} {a : α} (h : Maintains env State.Settled Q check)
    (hs : s.Settled) (ha : (withAccess span kind source token check env s).1 = .ok a) : Q a := by
  obtain ⟨opened, t, hrun, -⟩ := openAccess_opens span kind source token env s
  rw [withAccess_apply hrun] at ha
  exact h.value ((openAccess_settles span kind source token).after hs hrun) ha

/-! ### Expressions -/

theorem checkIdent_settles (name : String) (use : Use) (span : Span) :
    FindsSettled env (checkIdent name use span) := by
  refine (lookup_settles name span).bind fun symbol hsymbol => ?_
  split
  · exact (leaves_of_keeps fun s => .useSymbol frame_similar symbol use span).seq fun _ =>
      .pure hsymbol.ty
  · exact .pure hsymbol.ty
  · exact .fail (reportable_settled _)
  · exact .fail (reportable_settled _)
  · exact .fail (reportable_settled _)

theorem checkQualified_settles (qualifier path : String) (property : Ident) :
    FindsSettled env (checkQualified qualifier path property) := by
  have hmember : Maintains env State.Settled Symbol.Settled (moduleMember path property) := by
    refine .surroundings ?_
    split
    · rename_i symbol hmember
      obtain ⟨decl, rfl⟩ := env.exists_decl_of_member? hmember
      exact .pure (decl.settled_symbol env.language)
    · exact .fail (reportable_settled _)
  refine hmember.bind fun symbol hsymbol => ?_
  split
  · exact .pure hsymbol.ty
  · exact .pure hsymbol.ty
  · exact .fail (reportable_settled _)

theorem elementType_settles {object : Ty} (hobject : object.isFixable = true) (position : Ty)
    (positionSpan span : Span) :
    FindsSettled env (elementType object position positionSpan span) := by
  unfold elementType
  simp only
  split
  · exact .fail (reportable_settled _)
  · split
    · rename_i helement
      exact .pure (Ty.isSettled_element? hobject helement)
    · exact .fail (reportable_settled _)

theorem judge_settles (verdict : Except Fault α) (span : Span) :
    Leaves env State.Settled (judge verdict span) :=
  .judge (fun _ _ => trivial) fun _ _ => reportable_settled _

theorem rawType_settles (op : RawOp) (type : Option TypeExpr) (span : Span) :
    FindsSettled env (rawType op type span) := by
  cases type with
  | none => exact .fail (reportable_settled _)
  | some type => exact resolve_settles type

/-- The type of an expression is settled unless the expression is made of unsuffixed literals. -/
theorem checkExpr_settles : ∀ (expr : Expr) (use : Use),
    Maintains env State.Settled expr.Finds (checkExpr expr use)
  | .literal _ value => by
      intro use
      rw [checkExpr]
      exact .pure ((Ty.isFixable_iff.1 value.isFixable_ty).imp_right fun h => ⟨h, h⟩)
  | .ident span name => by
      intro use
      rw [checkExpr]
      exact (checkIdent_settles name use span).mono fun _ => .inl
  | .paren _ inner => by
      intro use
      rw [checkExpr]
      exact checkExpr_settles inner use
  | .binary span left op right => by
      intro use
      rw [checkExpr]
      refine (checkExpr_settles left .read).bind fun _ hleft => ?_
      refine (checkExpr_settles right .read).bind fun _ hright => .judge (fun ty hty => ?_)
        fun _ _ => reportable_settled _
      rcases Ty.binary_found hleft.isFixable hright.isFixable hty with
        hsettled | ⟨hflexible, hjoins, hl, hr⟩
      · exact .inl hsettled
      · refine .inr ⟨hflexible, ?_⟩
        simp [Expr.isFlexible, hjoins, hleft.isFlexible hl, hright.isFlexible hr]
  | .unary span op operand => by
      intro use
      rw [checkExpr]
      refine (checkExpr_settles operand .read).bind fun _ hoperand => .judge (fun ty hty => ?_)
        fun _ _ => reportable_settled _
      exact (Ty.unary_found hoperand.isFixable hty).imp_right
        fun h => ⟨h.1, hoperand.isFlexible h.2⟩
  | .call span callee args => by
      intro use
      rw [checkExpr]
      refine (leaves_of_keeps fun s => rejectTypeCallee_keeps frame_similar callee).seq fun _ => ?_
      refine (checkExpr_settles callee .read).bind fun ty hty => ?_
      split
      · rename_i params result hstrip
        have hsettled := Ty.isSettled_of_strip hty.isFixable (by rw [hstrip]; rfl)
        rw [← Ty.isSettled_strip, hstrip, Ty.isSettled_routine] at hsettled
        refine (Maintains.require fun _ => reportable_settled _).seq fun _ => ?_
        refine (leaves_of_keeps fun s =>
          checkArgs_keeps stmtFrame_similar.toExprFrame args params s).seq fun _ => ?_
        exact .pure (.inl hsettled.2)
      · exact (leaves_of_keeps fun s =>
          checkLooseArgs_keeps stmtFrame_similar.toExprFrame args s).seq fun _ => .pure (.inl rfl)
      · exact .fail (reportable_settled _)
  | .member _ object property => by
      intro use
      rw [checkExpr]
      refine (leaves_of_keeps fun s => namedModule_keeps frame_similar object).seq fun found => ?_
      split
      · exact (checkQualified_settles _ _ property).mono fun _ => .inl
      · refine (checkExpr_settles object .read).bind fun _ hobject => .rule (fun s ty hs hty => ?_)
          fun _ d _ => reportable_settled d
        exact .inl (Table.isSettled_memberType hs.table hobject.isFixable hty)
  | .index span object position => by
      intro use
      rw [checkExpr]
      refine (checkExpr_settles object .read).bind fun _ hobject => ?_
      refine (checkExpr_settles position .read).seq fun _ => ?_
      exact (elementType_settles hobject.isFixable _ _ span).mono fun _ => .inl
  | .construct span type inits => by
      intro use
      rw [checkExpr]
      refine (lookup_settles _ _).bind fun symbol hsymbol => ?_
      split
      · exact .fail (reportable_settled _)
      · refine (leaves_of_keeps fun s =>
          checkInits_keeps stmtFrame_similar.toExprFrame _ _ inits [] s).seq fun seen => ?_
        refine (leaves_of_keeps fun s => reportMissing_keeps frame_similar _ _ _ _).seq fun _ => ?_
        exact .pure (.inl hsymbol.ty)
  | .convert span operand target => by
      intro use
      rw [checkExpr]
      refine (checkExpr_settles operand .read).seq fun source => ?_
      refine (resolve_settles target).bind fun ty hty => ?_
      exact (judge_settles _ _).seq fun _ => .pure (.inl hty)
  | .raw span .addressOf type [arg] => by
      intro use
      rw [checkExpr]
      refine (leaves_of_keeps fun s => requireUnsafe_keeps frame_similar _ span).seq fun _ => ?_
      split
      · exact .fail (reportable_settled _)
      · exact (checkExpr_settles arg .read).seq fun _ => .pure (.inl rfl)
  | .raw span .readAs type [address] => by
      intro use
      rw [checkExpr]
      refine (leaves_of_keeps fun s => requireUnsafe_keeps frame_similar _ span).seq fun _ => ?_
      refine (rawType_settles _ type span).bind fun target htarget => ?_
      refine (checkExpr_settles address .read).seq fun ty => ?_
      exact (leaves_of_keeps fun s => expectAddress_keeps frame_similar ty _).seq fun _ =>
        .pure (.inl htarget)
  | .raw span .writeAs type [address, value] => by
      intro use
      rw [checkExpr]
      refine (leaves_of_keeps fun s => requireUnsafe_keeps frame_similar _ span).seq fun _ => ?_
      refine (rawType_settles _ type span).seq fun target => ?_
      refine (checkExpr_settles address .read).seq fun ty => ?_
      refine (leaves_of_keeps fun s => expectAddress_keeps frame_similar ty _).seq fun _ => ?_
      refine (checkExpr_settles value (.argument false)).seq fun found => ?_
      exact (judge_settles _ _).seq fun _ => .pure (.inl rfl)
  -- the wrong number of operands
  | .raw span .addressOf _ [] | .raw span .addressOf _ (_ :: _ :: _)
  | .raw span .readAs _ [] | .raw span .readAs _ (_ :: _ :: _)
  | .raw span .writeAs _ [] | .raw span .writeAs _ [_]
  | .raw span .writeAs _ (_ :: _ :: _ :: _) => by
      intro use
      unfold checkExpr
      exact (leaves_of_keeps fun s => requireUnsafe_keeps frame_similar _ span).seq fun _ =>
        .fail (reportable_settled _)
  | .access span kind source token body => by
      intro use
      have hkeeps : ∀ s, Keeps env (Keeping Symbol.Similar 0)
          (checkExpr (.access span kind source token body) use) s :=
        checkExpr_keeps stmtFrame_similar.toExprFrame _ use
      refine ⟨(leaves_of_keeps hkeeps).left, fun {s ty} hs hty => ?_, (leaves_of_keeps hkeeps).cut⟩
      rw [checkExpr] at hty
      exact withAccess_value (checkExpr_settles body (.store s.depth)) hs hty

/-! ### Statements -/

theorem declaredType_settles (type : Option TypeExpr) :
    Maintains env State.Settled (fun declared => ∀ ty, declared = some ty → ty.isSettled = true)
      (declaredType type) := by
  cases type with
  | none => exact .pure fun _ h => nomatch h
  | some type =>
      refine (typeOrUnknown_settles type).map fun ty hty found h => ?_
      cases h
      exact hty

/-- A variable that is declared with a type gets that type or stays a token. -/
theorem bindDeclared_settles {declared found : Ty} (hdeclared : declared.isSettled = true)
    (hfound : found.isFixable = true) (init : Expr) :
    Maintains env State.Settled (fun bound => bound.1.isSettled = true)
      (bindDeclared declared init found) := by
  have hreport : Maintains env State.Settled (fun bound => bound.1.isSettled = true) (do
      report (.typeMismatch declared found) init.span
      return (declared, false)) :=
    (Maintains.report (reportable_settled _)).seq fun _ => .pure hdeclared
  refine Maintains.state.bind fun s _ => ?_
  split
  · exact hreport
  · split
    · exact hreport
    · split
      · rename_i htoken
        refine .pure ?_
        cases found with
        | token kind inner => exact (Ty.isFixable_iff.1 hfound).resolve_right nofun
        | _ => simp [Table.isReferenceToken] at htoken
      · exact .pure hdeclared

/-- Where no type is written, that of a literal is replaced by the one the language has for it. -/
theorem initType_settles {declared : Option Ty}
    (hdeclared : ∀ ty, declared = some ty → ty.isSettled = true) (init : Expr) :
    FindsSettled env (initType declared init) := by
  refine .depth fun depth => (checkExpr_settles init (.store depth)).attempt.bind
    fun found hfound => ?_
  split
  · exact .pure (hdeclared _ rfl)
  · refine (bindDeclared_settles (hdeclared _ rfl) (hfound _ rfl).isFixable init).bind
      fun bound hbound => ?_
    simp only
    split
    · exact (takeOver_settles init).seq fun _ => .pure hbound
    · exact .pure hbound
  · exact .pure rfl
  · exact .language ((takeOver_settles init).seq fun _ =>
      .pure (Language.isSettled_settle _ (hfound _ rfl).isFixable))

theorem varType_settles (decl : VarDecl) : FindsSettled env (varType decl) := by
  refine (declaredType_settles decl.type).bind fun declared hdeclared => ?_
  split
  · exact initType_settles hdeclared _
  · exact .pure (hdeclared _ rfl)
  · exact (Maintains.report (reportable_settled _)).seq fun _ => .pure rfl

theorem checkVar_settles (decl : VarDecl) :
    Leaves env State.Settled (checkVar decl) :=
  (varType_settles decl).bind fun _ hty => declare_settles (.of_ty hty rfl)

/-- A name is bound to the type of the subject as it is. -/
theorem checkPattern_settles {pattern : Pattern} {subject : Ty}
    (h : pattern.isBinding = true → subject.isSettled = true) :
    Leaves env State.Settled (checkPattern pattern subject) := by
  cases pattern with
  | otherwise => exact .pure trivial
  | literal => exact .require fun _ => reportable_settled _
  | binding span name =>
      exact (declare_settles (.of_ty (h rfl) rfl)).reporting

/-! ### Declarations -/

theorem paramTypes_settles (params : List Param) :
    Maintains env State.Settled (fun tys => ∀ ty ∈ tys, ty.isSettled = true)
      (paramTypes params) := by
  induction params with
  | nil => exact .pure (List.forall_mem_nil _)
  | cons param params ih =>
      exact (typeOrUnknown_settles param.type).bind fun ty hty => ih.bind fun tys htys =>
        .pure (List.forall_mem_cons.2 ⟨hty, htys⟩)

theorem declareParams_settles {params : List (Param × Ty)}
    (hparams : ∀ param ∈ params, param.2.isSettled = true) :
    Leaves env State.Settled (declareParams params) :=
  declareParams_leaves fun param hparam =>
    declare_settles (.of_ty (hparams param hparam) rfl)

theorem resultType_settles (type : Option TypeExpr) : FindsSettled env (resultType type) := by
  cases type with
  | none => exact .pure rfl
  | some type => exact typeOrUnknown_settles type

theorem declareRoutine_settles (routine : Routine) :
    Maintains env State.Settled
      (fun signature => (∀ ty ∈ signature.1, ty.isSettled = true) ∧ signature.2.isSettled = true)
      (declareRoutine routine) := by
  refine .language ((Maintains.require fun _ => reportable_settled _).seq fun _ => ?_)
  refine (paramTypes_settles routine.params).bind fun params hparams => ?_
  refine (resultType_settles routine.result).bind fun result hresult => ?_
  have hty : (Ty.routine params result).isSettled = true :=
    Ty.isSettled_routine.2 ⟨hparams, hresult⟩
  exact (declare_settles (.of_ty hty rfl)).seq fun _ => .pure ⟨hparams, hresult⟩

theorem checkRoutine_settles (routine : Routine) :
    Leaves env State.Settled (checkRoutine routine) :=
  stable_settled.checkRoutine (declareRoutine_settles routine)

theorem declareTypeParams_settles (params : List Ident) :
    Leaves env State.Settled (declareTypeParams params) :=
  declareTypeParams_leaves fun _ _ => declare_settles (.of_ty rfl rfl)

theorem checkFields_settles (fields : List FieldDecl) {done : List (String × Ty)}
    (hdone : ∀ field ∈ done, field.2.isSettled = true) :
    Maintains env State.Settled (fun found => ∀ field ∈ found, field.2.isSettled = true)
      (checkFields fields done) := by
  induction fields generalizing done with
  | nil => exact .pure hdone
  | cons field fields ih =>
      unfold checkFields
      split
      · exact (Maintains.report (reportable_settled _)).seq fun _ => ih hdone
      · refine (typeOrUnknown_settles field.type).bind fun ty hty => ?_
        refine (Maintains.require fun _ => reportable_settled _).seq fun _ => ih ?_
        exact List.forall_mem_append.2 ⟨hdone, List.forall_mem_singleton.2 hty⟩

/-- The fields of a type are resolved in a scope that is gone when the type gets them. -/
theorem withFields_settles (decl : TypeDecl) :
    Maintains env State.Settled (fun found => ∀ field ∈ found, field.2.isSettled = true)
      (withScope do
        declareTypeParams decl.params
        checkFields decl.fields []) := by
  refine ((declareTypeParams_settles decl.params).seq fun _ =>
    checkFields_settles decl.fields (List.forall_mem_nil _)).withScope State.Settled.openScope ?_
  exact leaves_of_keeps fun _ => withFields_keeps stmtFrame_similar decl

theorem checkTypeDecl_settles (decl : TypeDecl) :
    Leaves env State.Settled (checkTypeDecl decl) := by
  have hdeclare : Leaves env State.Settled (declare
      { Symbol.composite decl.semantics decl.name.name [] decl.paramNames decl.name.span with
        visibility := decl.visibility }) := declare_settles (.of_ty rfl rfl)
  refine hdeclare.seq fun _ => (withFields_settles decl).bind fun fields hfields => ?_
  refine .modify fun s hs => ⟨?_, hs.table.update fun _ h => h.setFields hfields⟩
  have hkept : State.Kept Symbol.Revised 0 s
      { s with table := s.table.update decl.name.name (Symbol.setFields fields) } :=
    .of_table (.update Symbol.isChange_revised (Symbol.revised_setFields _) _ _)
  exact hkept.sound hs.sound

theorem checkDecl_settles (decl : Decl) :
    Leaves env State.Settled (checkDecl decl) := by
  cases decl with
  | routine routine => exact checkRoutine_settles routine
  | type decl => exact checkTypeDecl_settles decl
  | var decl => exact checkVar_settles decl

/-! ### Programs -/

/-- Whatever a module exports, importers see settled symbols only. -/
theorem importing_settled (env : Env) : Importing env State.Settled where
  exported decl := declare_settles (decl.settled_symbol env.language)
  module _ _ _ := declare_settles (.of_ty rfl rfl)
  report _ := reportable_settled _

theorem checkItem_settles (item : LinkedItem) : Leaves env State.Settled (checkItem item) :=
  checkItem_leaves (importing_settled env) checkDecl_settles item

end Check

end Custody
