import Custody.Proofs.Check.Maintains
import Custody.Proofs.Check.Visit

/-! Properties of the symbols of a state. Most checks add no symbols: they leave true what is true of the
symbols up to the states of variables. What is left are the checks that declare something, and for these
it depends on the property. Where it is a property of types alone, the declaration of a type is the only
one that matters, since a routine, a variable and the name of a module are no types. -/

namespace Custody

theorem State.Sound.around {s t : State} (hs : s.Sound) (htable : t.table = s.table)
    (hledger : t.ledger = s.ledger) : t.Sound := by
  rw [Sound, depth, htable, hledger]
  exact hs

namespace Check

/-- A property of states that stays true while the symbols are kept, up to the states of variables, and
in whatever is entered. -/
structure Stable (P : State → Prop) : Prop where
  sound : ∀ {s}, P s → s.Sound
  kept : ∀ {s t}, P s → State.Kept Symbol.Similar 0 s t → P t
  around : ∀ {s t}, P s → t.table = s.table → t.ledger = s.ledger → P t
  scope : ∀ {s}, P s → P s.openScope

/-- What is declared on the way from a piece of a program into its parts leaves the property true. -/
structure Entering (env : Env) (P : State → Prop) (task : Task) (s : State) : Prop where
  access : ∀ span kind source token, Leaves env P (openAccess span kind source token)
  var : ∀ decl, Leaves env P (checkVar decl)
  element : ∀ {span binding items body ty element t},
    task = .stmt (.forLoop span binding items body) → checkExpr items .read env s = (.ok ty, t) →
    ty.element? = some element →
    Leaves env P (declare (Symbol.var binding.name element false binding.span))
  pattern : ∀ {subject pattern guard body arms},
    task = .arms subject (⟨pattern, guard, body⟩ :: arms) → Leaves env P (checkPattern pattern subject)
  routine : ∀ routine, Leaves env P (declareRoutine routine)
  params : ∀ {routine params result t}, declareRoutine routine env s = (.ok (params, result), t) →
    Leaves env P (declareParams (routine.params.zip params))
  item : ∀ {item items}, task = .items (item :: items) → Leaves env P (checkItem item)

namespace Stable

variable {α : Type} {env : Env} {P : State → Prop} {s t : State} {task part : Task}

section

variable (stable : Stable P)
include stable

theorem reportable (diagnostic : Diagnostic) : Reportable P diagnostic :=
  fun _ hs => stable.around hs rfl rfl

/-- A check that adds no symbols leaves the property true. -/
theorem of_keeps {check : Check α} (h : ∀ s, Keeps env (Keeping Symbol.Similar 0) check s) :
    Leaves env P check where
  left hs := stable.kept hs ((h _).left (stable.sound hs))
  value _ _ := trivial
  cut hs _ := stable.around (stable.kept hs ((h _).left (stable.sound hs))) rfl rfl

/-! ### Statements -/

theorem checkExpr (expr : Expr) (use : Use) : Leaves env P (Check.checkExpr expr use) :=
  stable.of_keeps (checkExpr_keeps stmtFrame_similar.toExprFrame expr use)

theorem checkCondition (condition : Expr) :
    Leaves env P (reporting (Check.checkCondition condition)) :=
  stable.of_keeps fun _ =>
    .reporting frame_similar (checkCondition_keeps stmtFrame_similar.toExprFrame condition)

theorem block (body : List Stmt) : Leaves env P (withScope (checkStmts body)) :=
  stable.of_keeps fun _ =>
    .withScope blockFrame_similar (checkStmts_keeps stmtFrame_similar body _)

/-- A statement puts at most a variable into its scope; what the statements in it have declared is
gone. -/
theorem checkStmt (hvar : ∀ decl, Leaves env P (checkVar decl)) :
    ∀ stmt : Stmt, Leaves env P (Check.checkStmt stmt)
  | .expr _ value => by
      rw [Check.checkStmt]
      exact (stable.checkExpr value .read).seq fun _ => .pure trivial
  | .var _ decl => by
      rw [Check.checkStmt]
      exact hvar decl
  | .assign _ target value => by
      rw [Check.checkStmt]
      exact stable.of_keeps fun _ => checkAssign_keeps stmtFrame_similar target value
  | .give span value => by
      rw [Check.checkStmt]
      exact stable.of_keeps fun _ => checkReturn_keeps stmtFrame_similar.toExprFrame value span
  | .branch _ condition body otherwise => by
      unfold Check.checkStmt
      refine (stable.checkCondition condition).seq fun _ => (stable.block body).seq fun _ => ?_
      cases otherwise with
      | none => exact .pure trivial
      | some stmt => exact checkStmt hvar stmt
  | .whileLoop _ condition body => by
      rw [Check.checkStmt]
      refine (stable.checkCondition condition).seq fun _ => stable.of_keeps fun _ => ?_
      exact .inLoop blockFrame_similar
        (.withScope blockFrame_similar (checkStmts_keeps stmtFrame_similar body _))
  | .forLoop _ binding items body => by
      rw [Check.checkStmt]
      refine (stable.checkExpr items .read).seq fun ty => ?_
      split
      · exact .fail (stable.reportable _)
      · exact stable.of_keeps fun _ => .withScope blockFrame_similar
          (.bind frame_similar (.reporting frame_similar (.declare blockFrame_similar _))
            fun _ _ _ => .inLoop blockFrame_similar (checkStmts_keeps stmtFrame_similar body _))
  | .choose _ subject arms => by
      rw [Check.checkStmt]
      exact (stable.checkExpr subject .read).seq fun ty =>
        stable.of_keeps fun s => checkArms_keeps stmtFrame_similar ty arms s
  | .block _ body => by
      rw [Check.checkStmt]
      exact stable.block body
  | .danger span body | .mayhem span body => by
      rw [Check.checkStmt]
      refine (stable.of_keeps fun _ => requireUnsafeBlocks_keeps frame_similar _ span).seq
        fun _ => stable.of_keeps fun _ => ?_
      exact .withMode blockFrame_similar
        (.withScope blockFrame_similar (checkStmts_keeps stmtFrame_similar body _))
  | .access span kind source token body => by
      rw [Check.checkStmt]
      exact stable.of_keeps fun _ => withAccess_keeps stmtFrame_similar.toExprFrame
        fun _ t _ => checkStmts_keeps stmtFrame_similar body t
  | .leaveLoop span | .nextRound span => by
      rw [Check.checkStmt]
      exact stable.of_keeps fun _ => .state (requireLoop_keeps frame_similar)
  | .raise _ value => by
      rw [Check.checkStmt]
      exact (stable.checkExpr value _).seq fun _ => .pure trivial

theorem inRoutine {result : Ty} {check : Check α} (h : Leaves env P check) :
    Leaves env P (Check.inRoutine result check) := by
  have hleft : ∀ {s}, P s → P (Check.inRoutine result check env s).2 := by
    intro s hs
    have hinside : P { s with result := some result, loops := 0 } := stable.around hs rfl rfl
    exact stable.around (h.left hinside) rfl rfl
  exact ⟨hleft, fun _ _ => trivial, fun hs _ => stable.reportable _ _ (hleft hs)⟩

/-- The body of a routine is checked in a scope that is gone then. -/
theorem checkRoutine {routine : Routine} {Q : List Ty × Ty → Prop}
    (h : Maintains env P Q (declareRoutine routine)) : Leaves env P (Check.checkRoutine routine) := by
  refine h.seq fun (params, result) => ?_
  cases routine.body with
  | none => exact .pure trivial
  | some body =>
      exact stable.inRoutine (stable.of_keeps fun _ => checkBody_keeps stmtFrame_similar _ _ body)

/-! ### The way into a part -/

theorem callee (callee : Expr) : Leaves env P (do
    rejectTypeCallee callee
    Check.checkExpr callee .read) :=
  (stable.of_keeps fun _ => rejectTypeCallee_keeps frame_similar callee).seq fun _ =>
    stable.checkExpr callee .read

theorem rawTarget (op : RawOp) (type : Option TypeExpr) (span : Span) : Leaves env P (do
    requireUnsafe op span
    rawType op type span) :=
  (stable.of_keeps fun _ => requireUnsafe_keeps frame_similar op span).seq fun _ =>
    stable.of_keeps fun _ => rawType_keeps frame_similar op type span

/-- The way into a part leaves the property true, if what is declared on it does. -/
theorem visits (h : Visits env task s part t) (hs : P s) (entering : Entering env P task s) : P t := by
  cases h with
  -- the part is checked in the state of the piece
  | inner | left | operand | indexed | converted | surplusArg | firstArg | firstLooseArg
  | firstInit | innerPlace | objectPlace | indexedPlace | value | target | given
  | branchCondition | loopCondition | iterated | subject | raised | firstStmt => exact hs
  -- checks that add no symbols come before the part
  | right h | position h | arms h => exact (stable.checkExpr _ _).after hs h
  | surplusArgs h | otherLooseArgs h =>
      exact (stable.checkExpr _ _).attempt.after hs h
  | callee h =>
      exact (stable.of_keeps fun _ => rejectTypeCallee_keeps frame_similar _).after hs h
  | args h hty harity =>
      exact (Maintains.require fun _ => stable.reportable _).after
        ((stable.callee _).after hs h) harity
  | looseArgs h hty => exact (stable.callee _).after hs h
  | object h => exact (stable.of_keeps fun _ => namedModule_keeps frame_similar _).after hs h
  | inits h hfields => exact (stable.of_keeps fun _ => .lookup frame_similar _ _).after hs h
  | addressOf h hname =>
      exact (stable.of_keeps fun _ => requireUnsafe_keeps frame_similar _ _).after hs h
  | readAddress h | writeAddress h => exact (stable.rawTarget _ _ _).after hs h
  | written h =>
      refine Maintains.after (Q := fun _ => True) ?_ hs h
      refine (stable.of_keeps fun _ => requireUnsafe_keeps frame_similar _ _).seq fun _ => ?_
      refine (stable.of_keeps fun _ => rawType_keeps frame_similar _ _ _).seq fun _ => ?_
      refine (stable.checkExpr _ .read).seq fun ty => ?_
      exact stable.of_keeps fun _ => expectAddress_keeps frame_similar ty _
  | @otherArgs arg _ param _ _ _ h =>
      obtain ⟨found, u, hattempt, hpass⟩ := bind_eq_ok h
      have hu := (stable.checkExpr _ _).attempt.after hs hattempt
      have hkeeps : Keeps env (Keeping Symbol.Similar 0) (passArgument param arg found) u :=
        passArgument_keeps stmtFrame_similar.toExprFrame (usable_of_attempt hattempt)
      exact stable.kept hu (hkeeps.related hpass (stable.sound hu))
  | initsAfterRepeated h hseen =>
      refine Maintains.after (Q := fun _ => True) ?_ hs h
      exact (stable.checkExpr _ _).attempt.seq fun _ => .report (stable.reportable _)
  | @otherInits owner fields name value _ _ _ _ h hseen =>
      obtain ⟨found, u, hattempt, hinit⟩ := bind_eq_ok h
      have hu := (stable.checkExpr _ _).attempt.after hs hattempt
      have hkeeps : Keeps env (Keeping Symbol.Similar 0) (initField owner fields name value found) u :=
        initField_keeps stmtFrame_similar.toExprFrame (usable_of_attempt hattempt)
      exact stable.kept hu (hkeeps.related hinit (stable.sound hu))
  | placePosition h =>
      exact (stable.of_keeps fun s =>
        checkPlace_keeps stmtFrame_similar.toExprFrame _ s).after hs h
  | init hinit h | moduleInit hinit h =>
      exact (stable.of_keeps fun _ => declaredType_keeps frame_similar _).after hs h
  | assigned h =>
      exact (stable.of_keeps fun _ =>
        assignTarget_keeps stmtFrame_similar.toExprFrame _).after hs h
  | otherwise h =>
      refine Maintains.after (Q := fun _ => True) ?_ hs h
      exact (stable.checkCondition _).seq fun _ => stable.block _
  | otherArms h =>
      exact (stable.of_keeps fun _ =>
        .withScope blockFrame_similar (arm_keeps stmtFrame_similar _ _ _ _ _)).after hs h
  | otherStmts h =>
      exact (stable.checkStmt entering.var _).reporting.after hs h
  -- the part stands in a scope, a mode, a loop or a routine
  | underAccess h | accessBody h => exact (entering.access _ _ _ _).after hs h
  | branchBody h => exact stable.scope ((stable.checkCondition _).after hs h)
  | loopBody h =>
      exact stable.scope (stable.around ((stable.checkCondition _).after hs h) rfl rfl)
  | forBody hitems hty hbinding =>
      have ht := stable.scope ((stable.checkExpr _ _).after hs hitems)
      have hu := (entering.element rfl hitems hty).reporting.after ht hbinding
      exact stable.around hu rfl rfl
  | block => exact stable.scope hs
  | danger h | mayhem h =>
      have ht := (stable.of_keeps fun _ => requireUnsafeBlocks_keeps frame_similar _ _).after hs h
      exact stable.scope (stable.around ht rfl rfl)
  | guard h => exact stable.around ((entering.pattern rfl).after (stable.scope hs) h) rfl rfl
  | armBody h =>
      refine Maintains.after (Q := fun _ => True) ?_ (stable.scope hs) h
      exact (entering.pattern rfl).seq fun _ =>
        stable.of_keeps fun _ => checkGuard_keeps blockFrame_similar _
  -- programs
  | @routineBody routine _ _ _ _ result u _ hbody hroutine hparams =>
      have ht := (entering.routine routine).after hs hroutine
      have hinside : P { u with result := some result, loops := 0 } := stable.around ht rfl rfl
      have hdeclared := (entering.params hroutine).after (stable.scope hinside) hparams
      split
      · exact stable.around hdeclared rfl rfl
      · exact hdeclared
  | otherItems h => exact (entering.item rfl).reporting.after hs h

end

end Stable

/-! ### Types -/

/-- A stable property of states that only the declaration of a type can make false. -/
structure Lasting (P : State → Prop) : Prop extends Stable P where
  opened : ∀ {kind source token s opened t}, P s → Opened kind source token s opened t → P t
  declare : ∀ {s symbol key table}, P s → symbol.isType = false →
    s.table.declare symbol = .ok (key, table) → P { s with table }

namespace Lasting

variable {env : Env} {P : State → Prop} {task : Task} {s : State}

section

variable (lasting : Lasting P)
include lasting

theorem declares {symbol : Symbol} (h : symbol.isType = false) :
    Leaves env P (Check.declare symbol) :=
  declare_leaves (fun hs hdeclare => lasting.declare hs h hdeclare) (lasting.reportable _)

theorem checkVar (decl : VarDecl) : Leaves env P (Check.checkVar decl) :=
  (lasting.of_keeps fun _ => varType_keeps stmtFrame_similar.toExprFrame decl).seq fun _ =>
    lasting.declares rfl

theorem checkPattern (pattern : Pattern) (subject : Ty) :
    Leaves env P (Check.checkPattern pattern subject) := by
  cases pattern with
  | otherwise => exact .pure trivial
  | literal => exact .require fun _ => lasting.reportable _
  | binding span name => exact (lasting.declares rfl).reporting

theorem declareRoutine (routine : Routine) : Leaves env P (Check.declareRoutine routine) := by
  refine .language ((Maintains.require fun _ => lasting.reportable _).seq fun _ => ?_)
  refine (lasting.of_keeps fun s => paramTypes_keeps frame_similar _ s).seq fun params => ?_
  refine (lasting.of_keeps fun _ => resultType_keeps frame_similar _).seq fun result => ?_
  exact (lasting.declares rfl).seq fun _ => .pure trivial

/-- On the way into a part only variables are declared, unless it is an item of the program. -/
theorem entering (hitem : ∀ item, Leaves env P (checkItem item)) : Entering env P task s where
  access span kind source token := by
    refine .of_ok fun s hs => ?_
    obtain ⟨opened, t, hrun, hopened⟩ := openAccess_opens span kind source token env s
    rw [hrun]
    exact ⟨opened, rfl, trivial, lasting.opened hs hopened⟩
  var := lasting.checkVar
  element _ _ _ := lasting.declares rfl
  pattern _ := lasting.checkPattern _ _
  routine := lasting.declareRoutine
  params _ := declareParams_leaves fun _ _ => lasting.declares rfl
  item _ := hitem _

end

end Lasting

end Check

namespace Linked

open Check

variable {settings : Settings} {linked : Linked} {task : Task} {s : State} {P : State → Prop}

/-- What lasts, is true when the check of the items starts and is left true by each of them is true in
all states of the analysis. -/
theorem Reachable.of_lasting (lasting : Lasting P) (hstart : P (linked.start settings))
    (hitem : ∀ item, Leaves (linked.env settings) P (checkItem item))
    (h : Reachable settings linked s) : P s := by
  obtain ⟨task, h⟩ := h
  induction h with
  | start => exact hstart
  | visit hvisited hpart ih => exact lasting.visits hpart ih (lasting.entering hitem)

end Linked

end Custody
