import Custody.Analysis
import Custody.Proofs.Check.Stmt

/-! What checking a declaration and a whole program does to the state. A declaration adds at most one
symbol to the scope of its module; an import may add any number. -/

namespace Custody.Check

variable {α : Type} {env : Env} {R : Nat → State → State → Prop} {n : Nat} {s t : State}

/-- A frame for all steps of an analysis. -/
structure DeclFrame (env : Env) (R : Nat → State → State → Prop) : Prop extends
    StmtFrame env R where
  routine : ∀ {n s t result}, R n { s with result := some result, loops := 0 } t →
    R n s { t with result := s.result, loops := s.loops }
  fields : ∀ {s name fields},
    R 0 s { s with table := s.table.update name (Symbol.setFields fields) }

theorem Keeps.inRoutine (frame : DeclFrame env R) {result : Ty} {check : Check α}
    (h : Keeps env (R n) check { s with result := some result, loops := 0 }) :
    Keeps env (R n) (Check.inRoutine result check) s :=
  ⟨frame.routine h.left, h.fault⟩

/-! ### Routines -/

theorem paramTypes_keeps (frame : Frame R) (params : List Param) (s : State) :
    Keeps env (R 0) (paramTypes params) s := by
  induction params generalizing s with
  | nil => exact .pure frame _
  | cons param params ih =>
      rw [paramTypes]
      refine .seq frame (.typeOrUnknown frame param.type) fun _ t _ => ?_
      exact .seq frame (ih t) fun _ _ _ => .pure frame _

theorem declareParams_keeps (frame : StmtFrame env R) (params : List (Param × Ty)) (s : State) :
    Keeps env (R params.length) (declareParams params) s := by
  induction params generalizing s with
  | nil => exact .pure frame.toFrame _
  | cons param params ih =>
      rw [declareParams, List.length_cons, Nat.add_comm]
      exact .bind frame.toFrame (.reporting frame.toFrame (.declare frame.toBlockFrame _))
        fun _ t _ => ih t

theorem checkBody_keeps (frame : StmtFrame env R) (params : List (Param × Ty)) (usurping : Bool)
    (body : List Stmt) : Keeps env (R 0) (checkBody params usurping body) s := by
  have hbody : ∀ t, Keeps env (R body.length)
      (if usurping then withMode .usurping (checkStmts body) else checkStmts body) t := by
    intro t
    split
    · exact .withMode frame.toBlockFrame (checkStmts_keeps frame body _)
    · exact checkStmts_keeps frame body t
  exact .withScope frame.toBlockFrame
    (.bind frame.toFrame (declareParams_keeps frame params _) fun _ t _ => hbody t)

theorem resultType_keeps (frame : Frame R) (type : Option TypeExpr) :
    Keeps env (R 0) (resultType type) s := by
  cases type with
  | none => exact .pure frame _
  | some type => exact .typeOrUnknown frame type

theorem declareRoutine_keeps (frame : StmtFrame env R) (routine : Routine) :
    Keeps env (R 1) (declareRoutine routine) s := by
  refine .language ?_
  refine .seq frame.toFrame (.require frame.toFrame rfl) fun _ t _ => ?_
  refine .seq frame.toFrame (paramTypes_keeps frame.toFrame routine.params t) fun params _ _ => ?_
  refine .seq frame.toFrame (resultType_keeps frame.toFrame routine.result) fun result _ _ => ?_
  exact .followedBy frame.toFrame (.declare frame.toBlockFrame _) fun _ _ _ => .pure frame.toFrame _

theorem checkRoutine_keeps (frame : DeclFrame env R) (routine : Routine) :
    Keeps env (R 1) (checkRoutine routine) s := by
  refine .followedBy frame.toFrame (declareRoutine_keeps frame.toStmtFrame routine)
    fun (params, result) _ _ => ?_
  cases routine.body with
  | none => exact .pure frame.toFrame _
  | some body => exact .inRoutine frame (checkBody_keeps frame.toStmtFrame _ _ body)

/-! ### Types -/

theorem declareTypeParams_keeps (frame : StmtFrame env R) (params : List Ident) (s : State) :
    Keeps env (R params.length) (declareTypeParams params) s := by
  induction params generalizing s with
  | nil => exact .pure frame.toFrame _
  | cons param params ih =>
      rw [declareTypeParams, List.length_cons, Nat.add_comm]
      exact .bind frame.toFrame (.reporting frame.toFrame (.declare frame.toBlockFrame _))
        fun _ t _ => ih t

theorem checkFields_keeps (frame : Frame R) (fields : List FieldDecl) (done : List (String × Ty))
    (s : State) : Keeps env (R 0) (checkFields fields done) s := by
  induction fields generalizing done s with
  | nil => exact .pure frame _
  | cons field fields ih =>
      rw [checkFields]
      split
      · exact .seq frame (.report frame rfl) fun _ t _ => ih done t
      · refine .seq frame (.typeOrUnknown frame field.type) fun _ _ _ => ?_
        exact .seq frame (.require frame rfl) fun _ t _ => ih _ t

/-- The fields of a type are resolved in a scope of their own. -/
theorem withFields_keeps (frame : StmtFrame env R) (decl : TypeDecl) :
    Keeps env (R 0) (withScope do
      declareTypeParams decl.params
      checkFields decl.fields []) s :=
  .withScope frame.toBlockFrame
    (.followedBy frame.toFrame (declareTypeParams_keeps frame decl.params s.openScope) fun _ t _ =>
      checkFields_keeps frame.toFrame decl.fields [] t)

theorem checkTypeDecl_keeps (frame : DeclFrame env R) (decl : TypeDecl) :
    Keeps env (R 1) (checkTypeDecl decl) s := by
  refine .followedBy frame.toFrame (.declare frame.toBlockFrame _) fun _ t _ => ?_
  refine .seq frame.toFrame (withFields_keeps frame.toStmtFrame decl) fun _ u _ => ?_
  exact .modify frame.fields

theorem checkDecl_keeps (frame : DeclFrame env R) (decl : Decl) :
    Keeps env (R 1) (checkDecl decl) s := by
  cases decl with
  | routine routine => exact checkRoutine_keeps frame routine
  | type decl => exact checkTypeDecl_keeps frame decl
  | var decl => exact checkVar_keeps frame.toBlockFrame decl

/-! ### Programs -/

/-- The relation of a frame at some grade. -/
def AtSome (R : Nat → State → State → Prop) (s t : State) : Prop :=
  ∃ n, R n s t

theorem Frame.atSome (frame : Frame R) : Frame fun _ => AtSome R where
  refl s := ⟨0, frame.refl s⟩
  trans := fun ⟨m, hst⟩ ⟨n, htu⟩ => ⟨m + n, frame.trans hst htu⟩
  weaken _ h := h
  report h := ⟨0, frame.report h⟩

theorem Keeps.atSome {check : Check α} (h : Keeps env (R n) check s) :
    Keeps env (AtSome R) check s :=
  ⟨⟨n, h.left⟩, h.fault⟩

theorem Keeps.bindSome {β : Type} (frame : Frame R) {check : Check α} {next : α → Check β}
    (h : Keeps env (AtSome R) check s)
    (hnext : ∀ a t, check env s = (.ok a, t) → Keeps env (AtSome R) (next a) t) :
    Keeps env (AtSome R) (check >>= next) s :=
  @Keeps.bind α β env (fun _ => AtSome R) 0 0 s frame.atSome check next h hnext

theorem Keeps.reportingSome (frame : Frame R) {check : Check Unit}
    (h : Keeps env (AtSome R) check s) : Keeps env (AtSome R) (Check.reporting check) s :=
  @Keeps.reporting env (fun _ => AtSome R) 0 s frame.atSome check h

theorem declarePrelude_keeps (frame : StmtFrame env R) (symbols : List Symbol) (s : State) :
    Keeps env (AtSome R) (declarePrelude symbols) s := by
  induction symbols generalizing s with
  | nil => exact .atSome (.pure frame.toFrame _)
  | cons symbol symbols ih =>
      rw [declarePrelude]
      refine .bindSome frame.toFrame (.modify ?_) fun _ t _ => ih t
      split
      · rename_i hdeclare
        exact ⟨1, frame.declare hdeclare⟩
      · exact ⟨0, frame.refl s⟩

theorem declareImports_keeps (frame : StmtFrame env R) (span : Span) (symbols : List Symbol)
    (s : State) : Keeps env (AtSome R) (declareImports span symbols) s := by
  induction symbols generalizing s with
  | nil => exact .atSome (.pure frame.toFrame _)
  | cons symbol symbols ih =>
      rw [declareImports]
      refine .bindSome frame.toFrame (.modify ?_) fun _ t _ => ih t
      split
      · rename_i hdeclare
        exact ⟨1, frame.declare hdeclare⟩
      · rename_i hdeclare
        obtain rfl := Table.declare_error hdeclare
        exact ⟨0, frame.report rfl⟩

theorem loadPrelude_keeps (frame : StmtFrame env R) (tolerant : Bool)
    (prelude : List (String × Except LoadError Module)) (s : State) :
    Keeps env (AtSome R) (loadPrelude tolerant prelude) s := by
  induction prelude generalizing s with
  | nil => exact .atSome (.pure frame.toFrame _)
  | cons entry prelude ih =>
      rcases entry with ⟨path, cause | loaded⟩
      · rw [loadPrelude]
        refine .language ?_
        exact .bindSome frame.toFrame (.atSome (.require frame.toFrame rfl)) fun _ t _ => ih t
      · rw [loadPrelude]
        refine .language ?_
        exact .bindSome frame.toFrame (declarePrelude_keeps frame _ s) fun _ t _ => ih t

theorem checkImport_keeps (frame : StmtFrame env R) (request : Import)
    (answer : Except LoadError Module) : Keeps env (AtSome R) (checkImport request answer) s := by
  unfold checkImport
  split
  · exact .atSome (.fail frame.toFrame rfl)
  · split
    · exact .atSome (.declare frame.toBlockFrame _)
    · exact .language (declareImports_keeps frame request.span _ s)

theorem checkItem_keeps (frame : DeclFrame env R) (item : LinkedItem) :
    Keeps env (AtSome R) (checkItem item) s := by
  cases item with
  | load request answer => exact checkImport_keeps frame.toStmtFrame request answer
  | decl decl => exact .atSome (checkDecl_keeps frame decl)

theorem checkItems_keeps (frame : DeclFrame env R) (items : List LinkedItem) (s : State) :
    Keeps env (AtSome R) (checkItems items) s := by
  induction items generalizing s with
  | nil => exact .atSome (.pure frame.toFrame _)
  | cons item items ih =>
      rw [checkItems]
      exact .bindSome frame.toFrame (.reportingSome frame.toFrame (checkItem_keeps frame item))
        fun _ t _ => ih t

theorem checkItems_cons (item : LinkedItem) (items : List LinkedItem) (env : Env) (s : State) :
    checkItems (item :: items) env s =
      checkItems items env (reporting (checkItem item) env s).2 := by
  rw [checkItems, bind_of_ok (reporting_ok _ env s)]

theorem checkItems_append (first rest : List LinkedItem) (env : Env) (s : State) :
    checkItems (first ++ rest) env s = checkItems rest env (checkItems first env s).2 := by
  induction first generalizing s with
  | nil => rfl
  | cons item first ih => rw [List.cons_append, checkItems_cons, ih, checkItems_cons]

/-- Whatever is wrong with the items, all of them are checked. -/
theorem checkItems_ok (items : List LinkedItem) (env : Env) (s : State) :
    (checkItems items env s).1 = .ok () := by
  induction items generalizing s with
  | nil => rfl
  | cons item items ih =>
      rw [checkItems_cons]
      exact ih _

end Custody.Check
