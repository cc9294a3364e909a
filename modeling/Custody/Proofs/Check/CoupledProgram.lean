import Custody.Analysis
import Custody.Proofs.Check.Coupled

/-! The two runs of a check of statements, declarations and whole programs. Statements are read as they
are written, so that diagnostics stand at the same places. Where the languages differ, variables are
declared with their types: the type that a variable takes over from a literal depends on the
language. -/

namespace Custody

/-! ### Annotated programs -/

def VarDecl.isAnnotated (decl : VarDecl) : Bool :=
  decl.type.isSome

mutual
/-- All variables that the statement declares are declared with their types. -/
def Stmt.isAnnotated : Stmt → Bool
  | .var _ decl => decl.isAnnotated
  | .branch _ _ body none => Stmt.areAnnotated body
  | .branch _ _ body (some stmt) => Stmt.areAnnotated body && stmt.isAnnotated
  | .whileLoop _ _ body | .forLoop _ _ _ body | .block _ body | .danger _ body | .mayhem _ body
  | .access _ _ _ _ body => Stmt.areAnnotated body
  | .choose _ _ arms => Stmt.areArmsAnnotated arms
  | .expr _ _ | .assign _ _ _ | .give _ _ | .leaveLoop _ | .nextRound _ | .raise _ _ => true

def Stmt.areAnnotated : List Stmt → Bool
  | [] => true
  | stmt :: stmts => stmt.isAnnotated && Stmt.areAnnotated stmts

def Stmt.areArmsAnnotated : List (Arm Stmt) → Bool
  | [] => true
  | ⟨_, _, body⟩ :: arms => Stmt.areAnnotated body && Stmt.areArmsAnnotated arms
end

def Decl.isAnnotated : Decl → Bool
  | .routine declared => declared.body.all Stmt.areAnnotated
  | .type _ => true
  | .var declared => declared.isAnnotated

namespace Coupling

open Check

variable {c : Coupling} {n : Nat}

/-! ### Statements -/

theorem bindDeclared_agrees (declared : Ty) (init : Expr) (found : Ty) :
    c.Agrees n (bindDeclared declared init found) := by
  have hplace := c.reading.places_refl init.span
  refine .state fun s t hst => ?_
  rw [hst.isReferenceToken_eq]
  split
  · exact .bind (.report rfl hplace) fun _ => .pure rfl
  · split
    · exact .bind (.report rfl hplace) fun _ => .pure rfl
    · split
      · exact .pure rfl
      · exact .pure rfl

theorem checkTarget_agrees {name : String} (h : c.Sees name) (span : Span) :
    c.Agrees n (checkTarget name span) := by
  have hplace := c.reading.places_refl span
  refine (Couples.lookup h span).bindOn Pairing.Same.refl fun a b hab => ?_
  obtain ⟨state, rfl⟩ := hab.similar
  rcases a with ⟨symbolName, kind, ty, visibility, depth, place⟩
  cases kind with
  | var mutable old =>
      cases mutable with
      | true =>
          refine .state fun s t hst => ?_
          simp only [hst.ledger, hst.depth_eq, hst.modes, Symbol.key_setState,
            Symbol.depth_setState, Symbol.ty_setState]
          split
          · exact .pure rfl
          · exact .fail (Fault.ofViolation_ordinary _).supported hplace
      | false => exact .fail rfl hplace
  | _ => exact .fail rfl hplace

theorem revive_of_none {target : Expr} (h : target.asIdent = none) : revive target = pure () := by
  unfold revive
  rw [h]
  rfl

theorem revive_apply {target : Expr} {name : String} (h : target.asIdent = some name) (env : Env)
    (s : State) : revive target env s = (.ok (), { s with table := s.table.revived name }) := by
  simp only [revive, h, Table.revived]
  cases hfind : s.table.find? name with
  | none => rfl
  | some symbol =>
      simp only [setState_of_find? hfind]
      split <;> rfl

/-- A variable that is assigned to has its value in both runs. -/
theorem revive_agrees {target : Expr} (h : ∀ name ∈ target.names, c.Sees name) :
    c.Agrees n (revive target) := by
  cases hname : target.asIdent with
  | none =>
      rw [revive_of_none hname]
      exact .pure rfl
  | some name =>
      refine ⟨fun s => ?_, fun {s t} hst => .inr ?_⟩
      · simp only [revive_apply hname, List.prefix_rfl]
      · rw [revive_apply hname, revive_apply hname]
        exact ⟨.ok rfl, hst.withTable
          (c.revived hst.table (h name (Expr.mem_names_of_asIdent hname)))⟩

theorem checkPattern_agrees {pattern : Pattern} (h : ∀ name ∈ pattern.names, c.Sees name)
    (subject : Ty) : c.Agrees n (checkPattern pattern subject) := by
  cases pattern with
  | otherwise => exact .pure rfl
  | literal => exact .require rfl (c.reading.places_refl _)
  | binding span name =>
      exact .reporting (.declare (h name.name (List.mem_singleton_self _)) (suits_var _ _ _ _))

theorem requireUnsafeBlocks_agrees (construct : Construct) (span : Span) :
    c.Agrees n (requireUnsafeBlocks construct span) :=
  .language (.demand (·.supportsUnsafeBlocks) rfl construct span)

theorem requireLoop_agrees (misuse : Misuse) (span : Span) :
    c.Agrees n (do
      let state ← Check.state
      if state.loops = 0 then fail (.misuse misuse) span) := by
  refine .state fun s t hst => ?_
  rw [hst.loops]
  split
  · exact .fail rfl (c.reading.places_refl span)
  · exact .pure rfl

/-! Where the right run reads expressions as they are written, both check the same. -/

section Statements

variable (hwritten : c.reading = .written)
include hwritten

theorem expr_eq (expr : Expr) : c.reading.expr expr = expr := by
  rw [hwritten]
  rfl

theorem checkExpr_agrees (expr : Expr) (use : Use) (h : ∀ name ∈ expr.names, c.Sees name) :
    c.Agrees n (checkExpr expr use) := by
  have hcouples : c.Couples n Eq (checkExpr expr use) (checkExpr (c.reading.expr expr) use) :=
    checkExpr_couples expr use n h
  rw [expr_eq hwritten] at hcouples
  exact hcouples

theorem takeOver_agrees {value : Expr} (h : ∀ name ∈ value.names, c.Sees name) :
    c.Agrees n (takeOver value) := by
  have hcouples : c.Couples n Eq (takeOver value) (takeOver (c.reading.expr value)) :=
    takeOver_couples h
  rw [expr_eq hwritten] at hcouples
  exact hcouples

theorem checkCondition_agrees {condition : Expr} (h : ∀ name ∈ condition.names, c.Sees name) :
    c.Agrees n (checkCondition condition) :=
  (checkExpr_agrees hwritten condition .read h).bind fun ty =>
    expect_couples .bool ty (c.reading.places_refl _)

/-- A value without a type that it is declared with is bound as its language says. -/
theorem initType_agrees {declared : Option Ty} (h : c.crosses = true → declared.isSome = true)
    {init : Expr} (hnames : ∀ name ∈ init.names, c.Sees name) :
    c.Agrees n (initType declared init) := by
  refine .depth fun depth =>
    (checkExpr_agrees hwritten init (.store depth) hnames).attempt.bind fun found => ?_
  cases declared with
  | some ty =>
      cases found with
      | none => exact .pure rfl
      | some found =>
          refine (bindDeclared_agrees ty init found).bind fun bound => ?_
          simp only
          split
          · exact (takeOver_agrees hwritten hnames).bind fun _ => .pure rfl
          · exact .pure rfl
  | none =>
      cases found with
      | none => exact .pure rfl
      | some found =>
          have hcrosses : c.crosses = false := Bool.eq_false_iff.2 fun hcrosses => nomatch h hcrosses
          refine .language ?_
          rw [Pairing.right_language hcrosses]
          exact (takeOver_agrees hwritten hnames).bind fun _ => .pure rfl

theorem varType_agrees {decl : VarDecl} (h : c.crosses = true → decl.isAnnotated = true)
    (hnames : ∀ name ∈ decl.names, c.Sees name) : c.Agrees n (varType decl) := by
  rw [VarDecl.names, List.forall_mem_cons, List.forall_mem_append] at hnames
  obtain ⟨-, htypes, hinits⟩ := hnames
  unfold varType
  cases htype : decl.type with
  | none =>
      have hcrosses : c.crosses = true → (none : Option Ty).isSome = true := by
        intro hcrosses
        have hannotated := h hcrosses
        rw [VarDecl.isAnnotated, htype] at hannotated
        cases hannotated
      rw [declaredType, pure_bind]
      cases hinit : decl.init with
      | some init =>
          rw [hinit] at hinits
          exact initType_agrees hwritten hcrosses hinits
      | none => exact .bind (.report rfl (c.reading.places_refl _)) fun _ => .pure rfl
  | some type =>
      rw [htype] at htypes
      rw [declaredType, bind_map_left]
      refine (typeOrUnknown_agrees htypes).bind fun ty => ?_
      cases hinit : decl.init with
      | some init =>
          rw [hinit] at hinits
          exact initType_agrees hwritten (fun _ => rfl) hinits
      | none => exact .pure rfl

theorem checkVar_agrees {decl : VarDecl} (h : c.crosses = true → decl.isAnnotated = true)
    (hnames : ∀ name ∈ decl.names, c.Sees name) : c.Agrees n (checkVar decl) :=
  (varType_agrees hwritten h hnames).bind fun _ =>
    .declare (hnames _ List.mem_cons_self) ⟨fun _ => rfl, fun _ h => nomatch h⟩

theorem checkPlace_agrees : ∀ place : Expr, (∀ name ∈ place.names, c.Sees name) →
    c.Agrees n (checkPlace place)
  | .paren _ inner, h => by
      rw [checkPlace]
      exact checkPlace_agrees inner h
  | .ident span name, h => by
      have hplace := c.reading.places_refl span
      rw [checkPlace]
      refine (Couples.lookup (h name (List.mem_singleton_self name)) span).bindOn Pairing.Same.refl
        fun a b hab => ?_
      have huse := useSymbol_couples (n := n) hab .write span
      obtain ⟨state, rfl⟩ := hab.similar
      simp only [Symbol.isVar_setState, Symbol.access?_setState, Symbol.isMutable_setState,
        Symbol.ty_setState, Symbol.depth_setState]
      split
      · exact .fail rfl hplace
      · refine huse.bind fun _ => ?_
        split
        · exact .fail rfl hplace
        · exact .pure rfl
  | .member _ object property, h => by
      rw [Expr.names, List.forall_mem_cons] at h
      rw [checkPlace]
      exact (checkPlace_agrees object h.2).bind fun place =>
        (memberType_agrees place.1 h.1).bind fun _ => .pure rfl
  | .index span object position, h => by
      rw [Expr.names, List.forall_mem_append] at h
      rw [checkPlace]
      refine (checkPlace_agrees object h.1).bind fun place =>
        (checkExpr_agrees hwritten position .read h.2).bind fun positionTy => ?_
      exact (elementType_couples place.1 positionTy span (c.reading.places_refl _)).bind fun _ =>
        .pure rfl
  | .literal .., _ | .binary .., _ | .unary .., _ | .call .., _ | .construct .., _ | .convert .., _
  | .raw .., _ | .access .., _ => .fail rfl (c.reading.places_refl _)

theorem assignValue_agrees {target value : Expr} (htarget : ∀ name ∈ target.names, c.Sees name)
    (hvalue : ∀ name ∈ value.names, c.Sees name) (ty : Ty) (depth : Nat) :
    c.Agrees n (assignValue target value ty depth) := by
  have hplace := c.reading.places_refl value.span
  refine (checkExpr_agrees hwritten value (.store depth) hvalue).bind fun found => ?_
  refine (expect_couples ty found hplace).bind fun _ => .state fun s t hst => ?_
  rw [hst.isReferenceToken_eq]
  split
  · exact .fail rfl hplace
  · exact (takeOver_agrees hwritten hvalue).bind fun _ => revive_agrees htarget

theorem assignTarget_agrees {target : Expr} (h : ∀ name ∈ target.names, c.Sees name) :
    c.Agrees n (assignTarget target) := by
  unfold assignTarget
  split
  · exact checkTarget_agrees (h _ (List.mem_singleton_self _)) _
  · exact checkPlace_agrees hwritten _ h

theorem checkAssign_agrees {target value : Expr} (htarget : ∀ name ∈ target.names, c.Sees name)
    (hvalue : ∀ name ∈ value.names, c.Sees name) : c.Agrees n (checkAssign target value) :=
  (assignTarget_agrees hwritten htarget).bind fun place =>
    assignValue_agrees hwritten htarget hvalue place.1 place.2

theorem checkReturn_agrees {value : Option Expr}
    (h : ∀ name ∈ (value.map Expr.names).getD [], c.Sees name) (span : Span) :
    c.Agrees n (checkReturn value span) := by
  have hplace := c.reading.places_refl span
  refine .state fun s t hst => ?_
  rw [hst.result]
  cases s.result with
  | none => exact .fail rfl hplace
  | some expected =>
      cases value with
      | some value =>
          exact (checkExpr_agrees hwritten value .give h).bind fun found =>
            expect_couples expected found (c.reading.places_refl _)
      | none =>
          simp only
          split
          · exact .pure rfl
          · exact .fail rfl hplace

theorem checkGuard_agrees {guard : Option Expr}
    (h : ∀ name ∈ (guard.map Expr.names).getD [], c.Sees name) :
    c.Agrees n (checkGuard guard) := by
  cases guard with
  | none => exact .pure rfl
  | some condition => exact .reporting (.withMode (checkCondition_agrees hwritten h))

end Statements

/-- The runs can check the same: they see all names, and if the languages differ, variables are declared
with their types. -/
structure Fits (c : Coupling) (names : List String) (annotated : Bool) : Prop where
  sees : ∀ name ∈ names, c.Sees name
  annotated : c.crosses = true → annotated = true

theorem Fits.append {names names' : List String} {first rest : Bool}
    (h : c.Fits (names ++ names') (first && rest)) : c.Fits names first ∧ c.Fits names' rest := by
  have hboth : c.crosses = true → first = true ∧ rest = true :=
    fun hcrosses => (Bool.and_eq_true _ _).mp (h.annotated hcrosses)
  obtain ⟨hnames, hnames'⟩ := List.forall_mem_append.1 h.sees
  exact ⟨⟨hnames, fun hcrosses => (hboth hcrosses).1⟩, ⟨hnames', fun hcrosses => (hboth hcrosses).2⟩⟩

/-- Expressions declare no variables. -/
theorem Fits.of_expr {names names' : List String} {annotated : Bool}
    (h : c.Fits (names ++ names') annotated) :
    (∀ name ∈ names, c.Sees name) ∧ c.Fits names' annotated := by
  obtain ⟨hnames, hnames'⟩ := List.forall_mem_append.1 h.sees
  exact ⟨hnames, hnames', h.annotated⟩

mutual
theorem checkStmt_agrees (hwritten : c.reading = .written) : ∀ (stmt : Stmt) (n : Nat),
    c.Fits stmt.names stmt.isAnnotated → c.Agrees n (checkStmt stmt)
  | .expr _ value, n, h => by
      rw [checkStmt]
      exact (checkExpr_agrees hwritten value .read h.sees).bind fun _ => .pure rfl
  | .var _ decl, n, h => by
      rw [checkStmt]
      exact checkVar_agrees hwritten h.annotated h.sees
  | .assign _ target value, n, h => by
      rw [Stmt.names] at h
      rw [checkStmt]
      obtain ⟨htarget, hvalue⟩ := h.of_expr
      exact checkAssign_agrees hwritten htarget hvalue.sees
  | .give span value, n, h => by
      rw [checkStmt]
      exact checkReturn_agrees hwritten h.sees span
  | .branch _ condition body none, n, h => by
      rw [Stmt.names, Stmt.isAnnotated] at h
      rw [checkStmt]
      obtain ⟨hcondition, hbody⟩ := h.of_expr
      exact (checkCondition_agrees hwritten hcondition).reporting.bind fun _ =>
        (checkStmts_agrees hwritten body (n + 1) hbody).withScope.bind fun _ => .pure rfl
  | .branch _ condition body (some stmt), n, h => by
      rw [Stmt.names, Stmt.isAnnotated] at h
      rw [checkStmt]
      obtain ⟨hcondition, hrest⟩ := h.of_expr
      obtain ⟨hbody, hstmt⟩ := hrest.append
      exact (checkCondition_agrees hwritten hcondition).reporting.bind fun _ =>
        (checkStmts_agrees hwritten body (n + 1) hbody).withScope.bind fun _ =>
          checkStmt_agrees hwritten stmt n hstmt
  | .whileLoop _ condition body, n, h => by
      rw [Stmt.names, Stmt.isAnnotated] at h
      rw [checkStmt]
      obtain ⟨hcondition, hbody⟩ := h.of_expr
      exact (checkCondition_agrees hwritten hcondition).reporting.bind fun _ =>
        (checkStmts_agrees hwritten body (n + 1) hbody).withScope.inLoop
  | .forLoop _ binding items body, n, h => by
      rw [Stmt.names, Stmt.isAnnotated] at h
      rw [checkStmt]
      obtain ⟨hbinding, hnames⟩ := List.forall_mem_cons.1 h.sees
      obtain ⟨hitems, hbody⟩ := Fits.of_expr ⟨hnames, h.annotated⟩
      refine (checkExpr_agrees hwritten items .read hitems).bind fun ty => ?_
      split
      · exact .fail rfl (c.reading.places_refl _)
      · refine .withScope (.bind (.reporting (.declare hbinding (suits_var _ _ _ _))) fun _ => ?_)
        exact (checkStmts_agrees hwritten body (n + 1) hbody).inLoop
  | .choose _ subject arms, n, h => by
      rw [Stmt.names, Stmt.isAnnotated] at h
      rw [checkStmt]
      obtain ⟨hsubject, harms⟩ := h.of_expr
      exact (checkExpr_agrees hwritten subject .read hsubject).bind fun ty =>
        checkArms_agrees hwritten ty arms n harms
  | .block _ body, n, h => by
      rw [checkStmt]
      exact (checkStmts_agrees hwritten body (n + 1) h).withScope
  | .danger span body, n, h => by
      rw [checkStmt]
      exact (requireUnsafeBlocks_agrees .dangerBlock span).bind fun _ =>
        (checkStmts_agrees hwritten body (n + 1) h).withScope.withMode
  | .mayhem span body, n, h => by
      rw [checkStmt]
      exact (requireUnsafeBlocks_agrees .mayhemBlock span).bind fun _ =>
        (checkStmts_agrees hwritten body (n + 1) h).withScope.withMode
  | .access span kind source token body, n, h => by
      rw [Stmt.names, Stmt.isAnnotated] at h
      rw [checkStmt]
      obtain ⟨hsource, hnames⟩ := List.forall_mem_cons.1 h.sees
      obtain ⟨htoken, hbody⟩ := List.forall_mem_cons.1 hnames
      exact (checkStmts_agrees hwritten body (n + 1) ⟨hbody, h.annotated⟩).withAccess hsource htoken
  | .leaveLoop span, n, _ => by
      rw [checkStmt]
      exact requireLoop_agrees .breakOutsideLoop span
  | .nextRound span, n, _ => by
      rw [checkStmt]
      exact requireLoop_agrees .continueOutsideLoop span
  | .raise _ value, n, h => by
      rw [checkStmt]
      exact (checkExpr_agrees hwritten value (.argument false) h.sees).bind fun _ => .pure rfl

theorem checkStmts_agrees (hwritten : c.reading = .written) : ∀ (stmts : List Stmt) (n : Nat),
    c.Fits (Stmt.namesAll stmts) (Stmt.areAnnotated stmts) → c.Agrees n (checkStmts stmts)
  | [], n, _ => by
      rw [checkStmts]
      exact .pure rfl
  | stmt :: stmts, n, h => by
      rw [Stmt.namesAll, Stmt.areAnnotated] at h
      rw [checkStmts]
      obtain ⟨hstmt, hstmts⟩ := h.append
      exact (checkStmt_agrees hwritten stmt n hstmt).reporting.bind fun _ =>
        checkStmts_agrees hwritten stmts n hstmts

theorem checkArms_agrees (hwritten : c.reading = .written) (subject : Ty) :
    ∀ (arms : List (Arm Stmt)) (n : Nat),
      c.Fits (Stmt.namesArms arms) (Stmt.areArmsAnnotated arms) → c.Agrees n (checkArms subject arms)
  | [], n, _ => by
      rw [checkArms]
      exact .pure rfl
  | ⟨pattern, guard, body⟩ :: arms, n, h => by
      rw [Stmt.namesArms, Stmt.areArmsAnnotated] at h
      rw [checkArms]
      obtain ⟨hpattern, hrest⟩ := h.of_expr
      obtain ⟨hguard, hrest⟩ := hrest.of_expr
      obtain ⟨hbody, harms⟩ := hrest.append
      refine .bind (.withScope ?_) fun _ => checkArms_agrees hwritten subject arms n harms
      exact (checkPattern_agrees hpattern subject).bind fun _ =>
        (checkGuard_agrees hwritten hguard).bind fun _ =>
          checkStmts_agrees hwritten body (n + 1) hbody
end

/-! ### Declarations -/

/-- The runs read a program as it is written and see all its names, and the fields of a type are set in
both. -/
structure Whole (c : Coupling) : Prop where
  written : c.reading = .written
  sees : ∀ name, c.Sees name
  setFields : ∀ {n table table' name fields}, c.Joined n table table' →
    c.Joined n (table.update name (Symbol.setFields fields))
      (table'.update name (Symbol.setFields fields))

section Declarations

variable (hwhole : c.Whole)
include hwhole

theorem declareVar_agrees (name : String) (ty : Ty) (mutable : Bool) (span : Span) :
    c.Agrees n (declare (Symbol.var name ty mutable span)) :=
  .declare (hwhole.sees _) (suits_var _ _ _ _)

theorem typeOrUnknown_agrees_of_whole (type : TypeExpr) : c.Agrees n (typeOrUnknown type) :=
  typeOrUnknown_agrees fun name _ => hwhole.sees name

theorem paramTypes_agrees (params : List Param) : c.Agrees n (paramTypes params) := by
  induction params with
  | nil => exact .pure rfl
  | cons param params ih =>
      exact (typeOrUnknown_agrees_of_whole hwhole param.type).bind fun _ => ih.bind fun _ => .pure rfl

theorem declareParams_agrees (params : List (Param × Ty)) : c.Agrees n (declareParams params) := by
  induction params with
  | nil => exact .pure rfl
  | cons param params ih =>
      exact (declareVar_agrees hwhole _ _ _ _).reporting.bind fun _ => ih

theorem checkBody_agrees (params : List (Param × Ty)) (usurping : Bool) {body : List Stmt}
    (h : c.crosses = true → Stmt.areAnnotated body = true) :
    c.Agrees n (checkBody params usurping body) := by
  have hbody : c.Agrees (n + 1) (checkStmts body) :=
    checkStmts_agrees hwhole.written body (n + 1) ⟨fun name _ => hwhole.sees name, h⟩
  refine .withScope ((declareParams_agrees hwhole params).bind fun _ => ?_)
  split
  · exact hbody.withMode
  · exact hbody

theorem resultType_agrees (type : Option TypeExpr) : c.Agrees n (resultType type) := by
  cases type with
  | none => exact .pure rfl
  | some type => exact typeOrUnknown_agrees_of_whole hwhole type

theorem declareRoutine_agrees (routine : Routine) : c.Agrees n (declareRoutine routine) := by
  refine .language (.bind (.demand (fun language => !routine.usurping || language.supportsUsurping)
    (Bool.or_true _) .usurpingRoutine routine.span) fun _ => ?_)
  refine (paramTypes_agrees hwhole routine.params).bind fun params => ?_
  refine (resultType_agrees hwhole routine.result).bind fun result => ?_
  exact .bind (.declare (hwhole.sees _) ⟨fun _ => rfl, fun _ h => nomatch h⟩) fun _ => .pure rfl

theorem checkRoutine_agrees {routine : Routine}
    (h : c.crosses = true → routine.body.all Stmt.areAnnotated = true) :
    c.Agrees n (checkRoutine routine) := by
  refine (declareRoutine_agrees hwhole routine).bind fun signature => ?_
  simp only
  split
  · exact .pure rfl
  · rename_i body hbody
    rw [hbody] at h
    exact .inRoutine (checkBody_agrees hwhole _ routine.usurping h)

theorem declareTypeParams_agrees (params : List Ident) : c.Agrees n (declareTypeParams params) := by
  induction params with
  | nil => exact .pure rfl
  | cons param params ih =>
      refine .bind (.reporting ?_) fun _ => ih
      exact .declare (hwhole.sees _) ⟨fun _ => rfl, fun _ h => nomatch h⟩

theorem checkFields_agrees (fields : List FieldDecl) (done : List (String × Ty)) :
    c.Agrees n (checkFields fields done) := by
  induction fields generalizing done with
  | nil => exact .pure rfl
  | cons field fields ih =>
      unfold checkFields
      split
      · exact .bind (.report rfl (c.reading.places_refl _)) fun _ => ih done
      · exact (typeOrUnknown_agrees_of_whole hwhole field.type).bind fun ty =>
          .bind (.require rfl (c.reading.places_refl _)) fun _ => ih _

theorem checkTypeDecl_agrees (decl : TypeDecl) : c.Agrees n (checkTypeDecl decl) := by
  refine .bind (.declare (hwhole.sees _) ⟨fun _ => rfl, fun _ h => nomatch h⟩) fun _ => ?_
  refine .bind (.withScope ((declareTypeParams_agrees hwhole decl.params).bind fun _ =>
    checkFields_agrees hwhole decl.fields [])) fun fields => ?_
  exact .modify (fun _ => List.prefix_rfl) fun hst => hst.withTable (hwhole.setFields hst.table)

theorem checkDecl_agrees {decl : Decl} (h : c.crosses = true → decl.isAnnotated = true) :
    c.Agrees n (checkDecl decl) := by
  cases decl with
  | routine routine => exact checkRoutine_agrees hwhole h
  | type decl => exact checkTypeDecl_agrees hwhole decl
  | var decl => exact checkVar_agrees hwhole.written h fun name _ => hwhole.sees name

end Declarations

/-! ### Programs -/

/-- The exports of a module are declared alike. -/
theorem suits_export {loaded : Module} {language : Language} {symbol : Symbol}
    (h : symbol ∈ loaded.exports language) : c.Suits symbol := by
  obtain ⟨decl, -, rfl⟩ := List.mem_map.1 h
  cases decl with
  | _ => exact ⟨fun _ => rfl, fun _ h => nomatch h⟩

/-- The loader fails alike, or gives modules of one path with the same exports, which both runs find
there. -/
inductive Brings (c : Coupling) : Except LoadError Module → Except LoadError Module → Prop
  | missing (cause : LoadError) : Brings c (.error cause) (.error cause)
  | loaded {loaded loaded' : Module} (hpath : loaded'.path = loaded.path)
      (hknows : c.Knows loaded.path)
      (hexports : loaded'.exports c.right.language = loaded.exports c.left.language) :
      Brings c (.ok loaded) (.ok loaded')

/-- The items that the runs check alike. A declaration is annotated if the languages differ. -/
inductive Admits (c : Coupling) : LinkedItem → LinkedItem → Prop
  | decl {decl : Decl} (h : c.crosses = true → decl.isAnnotated = true) :
      Admits c (.decl decl) (.decl decl)
  | load {request : Import} {answer answer' : Except LoadError Module} (h : c.Brings answer answer') :
      Admits c (.load request answer) (.load request answer')

section Programs

variable (hwhole : c.Whole)
include hwhole

theorem declareImports_agrees (span : Span) {symbols : List Symbol}
    (h : ∀ symbol ∈ symbols, c.Suits symbol) : c.Agrees n (declareImports span symbols) := by
  induction symbols with
  | nil => exact .pure rfl
  | cons symbol symbols ih =>
      obtain ⟨hsymbol, hrest⟩ := List.forall_mem_cons.1 h
      refine .bind (.modify (fun s => ?_) fun {s t} hst => ?_) fun _ => ih hrest
      · split
        · exact List.prefix_rfl
        · exact List.prefix_append _ _
      · rcases hst.declare_cases (hwhole.sees _) hsymbol with
          ⟨cause, hleft, hright⟩ | ⟨key, declared, declared', hleft, hright, hrelated⟩
        · obtain rfl := Table.declare_error hleft
          simp only [hleft, hright]
          exact hst.report (c.reading.matches_refl _) (Pairing.shares_of_supported rfl)
        · simp only [hleft, hright]
          exact hrelated

theorem declarePrelude_agrees {symbols : List Symbol} (h : ∀ symbol ∈ symbols, c.Suits symbol) :
    c.Agrees n (declarePrelude symbols) := by
  induction symbols with
  | nil => exact .pure rfl
  | cons symbol symbols ih =>
      obtain ⟨hsymbol, hrest⟩ := List.forall_mem_cons.1 h
      refine .bind (.modify (fun s => ?_) fun {s t} hst => ?_) fun _ => ih hrest
      · split
        · exact List.prefix_rfl
        · exact List.prefix_rfl
      · rcases hst.declare_cases (hwhole.sees _) hsymbol with
          ⟨cause, hleft, hright⟩ | ⟨key, declared, declared', hleft, hright, hrelated⟩
        · simp only [hleft, hright]
          exact hst
        · simp only [hleft, hright]
          exact hrelated

theorem loadPrelude_couples (tolerant : Bool)
    {prelude prelude' : List (String × Except LoadError Module)}
    (h : List.Forall₂ (fun entry entry' => entry'.1 = entry.1 ∧ c.Brings entry.2 entry'.2)
      prelude prelude') :
    c.Couples n Eq (loadPrelude tolerant prelude) (loadPrelude tolerant prelude') := by
  induction h with
  | nil => exact .pure rfl
  | @cons entry entry' rest rest' hentry _ ih =>
      obtain ⟨path, answer⟩ := entry
      obtain ⟨path', answer'⟩ := entry'
      obtain ⟨rfl, hanswer⟩ := hentry
      refine .language ?_
      cases hanswer with
      | missing cause =>
          exact (Couples.require rfl (c.reading.places_refl _)).bind fun _ => ih
      | loaded hpath hknows hexports =>
          simp only [hexports]
          exact (declarePrelude_agrees hwhole fun _ => suits_export).bind fun _ => ih

theorem checkItem_couples {item item' : LinkedItem} (h : c.Admits item item') :
    c.Couples n Eq (checkItem item) (checkItem item') := by
  cases h with
  | decl h => exact checkDecl_agrees hwhole h
  | @load request answer answer' h =>
      cases h with
      | missing cause => exact .fail rfl (c.reading.places_refl _)
      | loaded hpath hknows hexports =>
          simp only [checkItem, checkImport, hpath]
          cases request.name with
          | some name =>
              refine .declare (hwhole.sees _) ⟨fun _ => rfl, fun path hmodule => ?_⟩
              cases hmodule
              exact hknows
          | none =>
              refine .language ?_
              rw [hexports]
              exact declareImports_agrees hwhole _ fun _ => suits_export

theorem checkItems_couples {items items' : List LinkedItem} (h : List.Forall₂ c.Admits items items') :
    c.Couples n Eq (checkItems items) (checkItems items') := by
  induction h with
  | nil => exact .pure rfl
  | cons hitem _ ih => exact (checkItem_couples hwhole hitem).reporting.bind fun _ => ih

end Programs

end Coupling

end Custody
