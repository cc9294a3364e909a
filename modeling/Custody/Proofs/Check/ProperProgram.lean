import Custody.Proofs.Check.Proper
import Custody.Proofs.Check.Visit

/-! Checking declarations and whole programs keeps the state proper. The one place where a type
parameter is a type is the scope in which the fields of a type are resolved. It has nothing but the
parameters in it, and what is resolved there goes nowhere but into the fields. So all the states that
an analysis goes through are proper, whatever its loader gives. -/

namespace Custody

/-- The symbol stands for one of these type parameters. -/
structure Symbol.IsParamOf (params : List Ident) (symbol : Symbol) : Prop where
  kind : symbol.kind = .basic
  ty : symbol.ty = .param symbol.name
  name : symbol.name ∈ params.map (·.name)

/-- The innermost scope is the one in which the fields of a type with these parameters are
resolved. -/
structure Table.InFields (language : Language) (params : List Ident) (table : Table) : Prop where
  params : ∀ symbol ∈ table.current, symbol.IsParamOf params
  outer : ∀ scope ∈ table.outer, ∀ symbol ∈ scope, symbol.Proper language
  above : table.inner ≠ []

namespace Table.InFields

variable {language : Language} {params : List Ident} {table : Table} {symbol : Symbol}

theorem append (h : table.InFields language params) (hsymbol : symbol.IsParamOf params) :
    (table.append symbol).InFields language params := by
  constructor
  · rw [current_append]
    exact List.forall_mem_append.2 ⟨h.params, List.forall_mem_singleton.2 hsymbol⟩
  · rw [outer_append]
    exact h.outer
  · have hdepth := depth_append table symbol
    intro hinner
    rw [depth, hinner, depth] at hdepth
    exact h.above (List.length_eq_zero_iff.1 hdepth.symm)

/-- With the scope, the type parameters are gone. -/
theorem pop (h : table.InFields language params) :
    ∃ scope popped, table.pop = .ok (scope, popped) ∧ popped.Proper language := by
  rcases table with ⟨root, _ | ⟨scope, rest⟩⟩
  · exact absurd rfl h.above
  · refine ⟨scope, ⟨root, rest⟩, rfl, all_iff_root.2 ⟨?_, ?_⟩⟩
    · exact h.outer root (by simp [Table.outer])
    · exact fun other hother => h.outer other (by simp [Table.outer, hother])

end Table.InFields

theorem State.Proper.enterFields {language : Language} {s : State}
    (h : s.Proper language (Table.Proper language)) (params : List Ident) :
    s.openScope.Proper language (Table.InFields language params) := by
  refine ⟨⟨?_, ?_, List.cons_ne_nil _ _⟩, h.result, h.reports⟩
  · intro symbol hsymbol
    cases hsymbol
  · rw [State.openScope, Table.outer_push]
    exact List.forall_mem_cons.2 (Table.all_iff.1 h.table)

namespace Check

variable {env : Env} {good : Table → Prop}

/-! ### Declarations -/

theorem paramTypes_ensures (params : List Param) :
    Ensures env (Table.Proper env.language) (fun tys => ∀ ty ∈ tys, ty.isClosed = true)
      (paramTypes params) := by
  induction params with
  | nil => exact .pure fun _ h => nomatch h
  | cons param params ih =>
      exact (typeOrUnknown_ensures param.type).bind fun ty hty => ih.bind fun tys htys =>
        .pure (List.forall_mem_cons.2 ⟨hty, htys⟩)

theorem declareParams_ensures {params : List (Param × Ty)}
    (hparams : ∀ param ∈ params, param.2.isClosed = true) : Upholds env (declareParams params) :=
  declareParams_leaves fun param hparam => Ensures.declare (.var (hparams param hparam))

theorem checkBody_ensures {params : List (Param × Ty)}
    (hparams : ∀ param ∈ params, param.2.isClosed = true) (usurping : Bool) (body : List Stmt) :
    Upholds env (checkBody params usurping body) := by
  refine .inScope ((declareParams_ensures hparams).seq fun _ => ?_)
  split
  · exact Ensures.withMode (checkStmts_ensures body)
  · exact checkStmts_ensures body

theorem resultType_ensures (type : Option TypeExpr) : FindsClosed env (resultType type) := by
  cases type with
  | none => exact .pure rfl
  | some type => exact typeOrUnknown_ensures type

/-- The types in the signature of a routine are closed. -/
theorem declareRoutine_ensures (routine : Routine) :
    Ensures env (Table.Proper env.language)
      (fun signature => (∀ ty ∈ signature.1, ty.isClosed = true) ∧ signature.2.isClosed = true)
      (declareRoutine routine) := by
  refine .language ((Maintains.require fun _ => .proper fun _ => rfl).seq fun _ => ?_)
  refine (paramTypes_ensures routine.params).bind fun params hparams => ?_
  refine (resultType_ensures routine.result).bind fun result hresult => ?_
  have hty : (Ty.routine params result).isClosed = true := Ty.isClosed_routine.2 ⟨hparams, hresult⟩
  exact (Ensures.declare ⟨hty, fun _ => rfl⟩).seq fun _ => .pure ⟨hparams, hresult⟩

theorem forall_mem_zip {params : List Param} {tys : List Ty}
    (htys : ∀ ty ∈ tys, ty.isClosed = true) :
    ∀ param ∈ params.zip tys, param.2.isClosed = true :=
  fun _ h => htys _ (List.of_mem_zip h).2

theorem checkRoutine_ensures (routine : Routine) : Upholds env (checkRoutine routine) := by
  refine (declareRoutine_ensures routine).bind fun signature hsignature => ?_
  simp only
  split
  · exact .pure trivial
  · exact Ensures.inRoutine hsignature.2
      (checkBody_ensures (forall_mem_zip hsignature.1) routine.usurping _)

theorem declareTypeParams_ensures (params : List Ident) :
    Ensures env (Table.InFields env.language params) (fun _ => True) (declareTypeParams params) :=
  declareTypeParams_leaves fun _ hparam => Ensures.declareIn fun _ h =>
    h.append ⟨rfl, rfl, List.mem_map_of_mem hparam⟩

/-- Resolving the types of fields leaves the table as it is. -/
theorem checkFields_ensures (fields : List FieldDecl) (done : List (String × Ty)) :
    Ensures env good (fun _ => True) (checkFields fields done) := by
  induction fields generalizing done with
  | nil => exact .pure trivial
  | cons field fields ih =>
      unfold checkFields
      split
      · exact Maintains.seq (.report (.ordinary ⟨rfl, rfl, rfl⟩)) fun _ => ih done
      · exact (typeOrUnknown_upholds field.type).seq fun ty =>
          (Maintains.require fun _ => .proper fun _ => rfl).seq fun _ => ih _

/-- The fields of a type are resolved where its parameters are types. -/
theorem inFields_ensures (params : List Ident) (fields : List FieldDecl) :
    Ensures env (Table.InFields env.language params) (fun _ => True) (do
      declareTypeParams params
      checkFields fields []) :=
  (declareTypeParams_ensures params).seq fun _ => checkFields_ensures fields []

theorem withFields_ensures (decl : TypeDecl) : Upholds env (withScope do
      declareTypeParams decl.params
      checkFields decl.fields []) := by
  refine Ensures.around (inFields_ensures decl.params decl.fields)
    (fun s hs => hs.enterFields decl.params) fun s t _ ht => ?_
  obtain ⟨scope, popped, hpop, hpopped⟩ := ht.table.pop
  unfold State.closeScope
  simp only [hpop]
  exact ⟨hpopped, ht.result, ht.reports⟩

theorem checkTypeDecl_ensures (decl : TypeDecl) : Upholds env (checkTypeDecl decl) := by
  have hdeclare : Upholds env (declare
      { Symbol.composite decl.semantics decl.name.name [] decl.paramNames decl.name.span with
        visibility := decl.visibility }) := .declare ⟨rfl, fun _ => rfl⟩
  refine hdeclare.seq fun _ => (withFields_ensures decl).seq fun fields => ?_
  exact .modify fun s hs => ⟨hs.table.update fun _ h => h.setFields fields, hs.result, hs.reports⟩

theorem checkDecl_ensures (decl : Decl) : Upholds env (checkDecl decl) := by
  cases decl with
  | routine routine => exact checkRoutine_ensures routine
  | type decl => exact checkTypeDecl_ensures decl
  | var decl => exact checkVar_ensures decl

/-! ### Programs -/

/-- Whatever a module exports, importers see proper symbols only. -/
theorem importing_proper (env : Env) :
    Importing env (State.Proper env.language (Table.Proper env.language)) where
  exported decl := Ensures.declare (Symbol.proper_symbol env.language decl)
  module _ _ _ := Ensures.declare ⟨rfl, fun _ => rfl⟩
  report h := .ordinary h

theorem checkItem_ensures (item : LinkedItem) : Upholds env (checkItem item) :=
  checkItem_leaves (importing_proper env) checkDecl_ensures item

theorem checkItems_ensures (items : List LinkedItem) : Upholds env (checkItems items) :=
  checkItems_leaves checkItem_ensures items

/-! ### On the way -/

/-- The types that go from a piece of a program into its parts are closed. -/
def Task.Proper : Task → Prop
  | .arms subject _ => subject.isClosed = true
  | _ => True

theorem openAccess_ensures (span : Span) (kind : Access) (source token : Ident) :
    Upholds env (openAccess span kind source token) :=
  .language ((Maintains.require fun _ => .proper fun _ => rfl).seq fun _ =>
    (Maintains.modify fun _ hs => hs.openScope).seq fun _ => beginAccess_ensures kind source token)

theorem callee_ensures (callee : Expr) : FindsClosed env (do
      rejectTypeCallee callee
      checkExpr callee .read) :=
  (rejectTypeCallee_ensures callee).seq fun _ => checkExpr_ensures callee .read

theorem rawTarget_ensures (op : RawOp) (type : Option TypeExpr) (span : Span) : FindsClosed env (do
      requireUnsafe op span
      rawType op type span) :=
  (requireUnsafe_ensures op span).seq fun _ => rawType_ensures op type span

/-- The way from a piece of a program into its parts stays among proper states. -/
theorem Visits.proper {task part : Task} {s t : State}
    (h : Visits env task s part t) (hs : s.Proper env.language (Table.Proper env.language))
    (htask : task.Proper) :
    t.Proper env.language (Table.Proper env.language) ∧ part.Proper := by
  cases h with
  | inner | left | operand | indexed | converted | surplusArg | firstArg | firstLooseArg
  | firstInit | innerPlace | objectPlace | indexedPlace | value | target | given
  | branchCondition | loopCondition | iterated | subject | raised | firstStmt =>
      exact ⟨hs, trivial⟩
  | right h | position h => exact ⟨(checkExpr_ensures _ _).after hs h, trivial⟩
  | arms h =>
      exact ⟨(checkExpr_ensures _ _).after hs h, (checkExpr_ensures _ _).found hs h⟩
  | surplusArgs h | otherLooseArgs h =>
      exact ⟨(checkExpr_ensures _ _).attempt.after hs h, trivial⟩
  | callee h => exact ⟨(rejectTypeCallee_ensures _).after hs h, trivial⟩
  | args hcallee hty harity =>
      have ht := (callee_ensures _).after hs hcallee
      exact ⟨(Maintains.require fun _ => .proper fun _ => rfl).after ht harity, trivial⟩
  | looseArgs hcallee hty => exact ⟨(callee_ensures _).after hs hcallee, trivial⟩
  | object h => exact ⟨(namedModule_ensures _).after hs h, trivial⟩
  | inits h hfields => exact ⟨(lookup_ensures _ _).after hs h, trivial⟩
  | addressOf h hname => exact ⟨(requireUnsafe_ensures _ _).after hs h, trivial⟩
  | readAddress h | writeAddress h => exact ⟨(rawTarget_ensures _ _ _).after hs h, trivial⟩
  | written h =>
      refine ⟨Maintains.after (Q := fun _ => True) ?_ hs h, trivial⟩
      refine (requireUnsafe_ensures _ _).seq fun _ => (rawType_ensures _ _ _).seq fun _ => ?_
      exact (checkExpr_ensures _ .read).seq fun ty => expectAddress_ensures ty _
  | underAccess h | accessBody h => exact ⟨(openAccess_ensures _ _ _ _).after hs h, trivial⟩
  | otherArgs h =>
      refine ⟨Maintains.after (Q := fun _ => True) ?_ hs h, trivial⟩
      exact (checkExpr_ensures _ _).attempt.seq fun found => passArgument_ensures _ _ found
  | initsAfterRepeated h hseen =>
      refine ⟨Maintains.after (Q := fun _ => True) ?_ hs h, trivial⟩
      exact (checkExpr_ensures _ _).attempt.seq fun _ => .report (.ordinary ⟨rfl, rfl, rfl⟩)
  | otherInits h hseen =>
      refine ⟨Maintains.after (Q := fun _ => True) ?_ hs h, trivial⟩
      exact (checkExpr_ensures _ _).attempt.seq fun found => initField_ensures _ _ _ _ found
  | placePosition h => exact ⟨(checkPlace_ensures _).after hs h, trivial⟩
  | init hinit h | moduleInit hinit h => exact ⟨(declaredType_ensures _).after hs h, trivial⟩
  | assigned h => exact ⟨(assignTarget_ensures _).after hs h, trivial⟩
  | branchBody h =>
      have ht := (checkCondition_ensures _).reporting.after hs h
      exact ⟨ht.openScope, trivial⟩
  | otherwise h =>
      refine ⟨Maintains.after (Q := fun _ => True) ?_ hs h, trivial⟩
      exact (checkCondition_ensures _).reporting.seq fun _ =>
        Ensures.inScope (checkStmts_ensures _)
  | loopBody h =>
      have ht := (checkCondition_ensures _).reporting.after hs h
      exact ⟨ht.inLoop.openScope, trivial⟩
  | forBody hitems hty hbinding =>
      have helement := Ty.isClosed_element? ((checkExpr_ensures _ _).found hs hitems) hty
      have ht := ((checkExpr_ensures _ _).after hs hitems).openScope
      have hu := (Ensures.declare (.var helement)).reporting.after ht hbinding
      exact ⟨hu.inLoop, trivial⟩
  | block => exact ⟨hs.openScope, trivial⟩
  | danger h | mayhem h =>
      have ht := (requireUnsafeBlocks_ensures _ _).after hs h
      exact ⟨ht.enterMode.openScope, trivial⟩
  | otherStmts h => exact ⟨(checkStmt_ensures _).reporting.after hs h, trivial⟩
  | guard h =>
      exact ⟨((checkPattern_ensures _ htask).after hs.openScope h).enterMode, trivial⟩
  | armBody h =>
      refine ⟨Maintains.after (Q := fun _ => True) ?_ hs.openScope h, trivial⟩
      exact (checkPattern_ensures _ htask).seq fun _ => checkGuard_ensures _
  | otherArms h =>
      refine ⟨Maintains.after (Q := fun _ => True) ?_ hs h, htask⟩
      exact Ensures.inScope (arm_ensures _ htask _ (checkStmts_ensures _))
  | @routineBody routine _ _ _ _ _ _ _ hbody hroutine hparams =>
      obtain ⟨htys, hresult⟩ := (declareRoutine_ensures routine).found hs hroutine
      have ht := ((declareRoutine_ensures routine).after hs hroutine).inRoutine hresult
      have hu := (declareParams_ensures (forall_mem_zip htys)).after ht.openScope hparams
      split
      · exact ⟨hu.enterMode, trivial⟩
      · exact ⟨hu, trivial⟩
  | otherItems h =>
      exact ⟨(checkItem_ensures _).reporting.after hs h, trivial⟩

end Check

/-! ### Analyses -/

theorem Table.proper_initial (language : Language) : Table.initial.Proper language := by
  have hbuiltins : builtins.all (fun symbol => symbol.ty.isClosed && !symbol.isMoved) = true := by
    decide +kernel
  refine all_iff_root.2 ⟨fun symbol hsymbol => ?_, by simp [initial]⟩
  have h := List.all_eq_true.1 hbuiltins symbol hsymbol
  rw [Bool.and_eq_true, Bool.not_eq_true'] at h
  exact ⟨h.1, fun _ => h.2⟩

namespace Linked

open Check

variable {settings : Settings} {linked : Linked} {task : Task} {s : State}

theorem proper_start (settings : Settings) (linked : Linked) :
    (linked.start settings).Proper settings.language (Table.Proper settings.language) := by
  have hinitial : State.Proper settings.language (Table.Proper settings.language) initial :=
    ⟨Table.proper_initial _, fun _ h => (by cases h), fun _ h => (by cases h)⟩
  have hprelude : Upholds (linked.env settings)
      (loadPrelude settings.toleratesMissingPrelude linked.prelude) :=
    loadPrelude_leaves (importing_proper _) _ _
  exact (hprelude.left hinitial).openScope

theorem Visited.proper (h : Visited settings linked task s) :
    s.Proper settings.language (Table.Proper settings.language) ∧ task.Proper := by
  induction h with
  | start => exact ⟨proper_start settings linked, trivial⟩
  | visit htask hpart ih => exact hpart.proper ih.1 ih.2

theorem Reachable.proper (h : Reachable settings linked s) :
    s.Proper settings.language (Table.Proper settings.language) := by
  obtain ⟨task, h⟩ := h
  exact h.proper.1

theorem proper_analyzed (settings : Settings) (linked : Linked) :
    (checkItems linked.items (linked.env settings) (linked.start settings)).2.Proper
      settings.language (Table.Proper settings.language) := by
  have hitems : Upholds (linked.env settings) (checkItems linked.items) := checkItems_ensures _
  exact hitems.left (proper_start settings linked)

end Linked

end Custody
