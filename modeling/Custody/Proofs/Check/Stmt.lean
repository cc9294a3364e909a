import Custody.Proofs.Check.Expr
import Custody.Proofs.Check.Task

/-! What checking a statement does to the state. Beside the steps of expressions it declares
variables, gives them their values back, and enters scopes, modes and loops that it leaves again. A
statement declares at most one symbol in the scope where it stands. -/

namespace Custody.Check

variable {α : Type} {env : Env} {R : Nat → State → State → Prop} {n : Nat} {s t : State}

/-- A frame for the steps that statements are checked with, up to what an assignment does to its
target. -/
structure BlockFrame (env : Env) (R : Nat → State → State → Prop) : Prop extends
    ExprFrame env R where
  declare : ∀ {s symbol key table}, s.table.declare symbol = .ok (key, table) →
    R 1 s { s with table }
  scope : ∀ {n s t}, R n s.openScope t → R 0 s (t.closeScope (s.depth + 1))
  mode : ∀ {n s t mode}, R n (s.enterMode mode) t → R n s (t.leaveMode mode)
  loop : ∀ {n s t}, R n { s with loops := s.loops + 1 } t → R n s { t with loops := t.loops - 1 }

/-- A frame for the steps that statements are checked with. -/
structure StmtFrame (env : Env) (R : Nat → State → State → Prop) : Prop extends
    BlockFrame env R where
  revive : ∀ {s name symbol}, s.table.find? name = some symbol → symbol.isMoved = true →
    R 0 s { s with table := s.table.update name (Symbol.setState .live) }

namespace Keeps

theorem map (frame : Frame R) {β : Type} {check : Check α} {f : α → β}
    (h : Keeps env (R n) check s) : Keeps env (R n) (f <$> check) s := by
  rw [← bind_pure_comp]
  exact bind frame h fun a _ _ => pure frame (f a)

theorem declare (frame : BlockFrame env R) (symbol : Symbol) :
    Keeps env (R 1) (Check.declare symbol) s := by
  rcases hrun : s.table.declare symbol with cause | ⟨key, table⟩
  · have hdeclare : Check.declare symbol env s = (.error ⟨.ofScope cause, symbol.span⟩, s) := by
      rw [Check.declare, hrun]
    obtain rfl := Table.declare_error hrun
    constructor
    · rw [hdeclare]
      exact frame.weaken (Nat.zero_le 1) (frame.refl s)
    · intro diagnostic h
      rw [hdeclare] at h
      cases h
      rfl
  · have hdeclare : Check.declare symbol env s = (.ok (), { s with table }) := by
      rw [Check.declare, hrun]
    constructor
    · rw [hdeclare]
      exact frame.declare hrun
    · intro diagnostic h
      rw [hdeclare] at h
      cases h

theorem withScope (frame : BlockFrame env R) {check : Check α}
    (h : Keeps env (R n) check s.openScope) : Keeps env (R 0) (Check.withScope check) s :=
  ⟨frame.scope h.left, h.fault⟩

theorem withMode (frame : BlockFrame env R) {mode : Mode} {check : Check α}
    (h : Keeps env (R n) check (s.enterMode mode)) :
    Keeps env (R n) (Check.withMode mode check) s :=
  ⟨frame.mode h.left, h.fault⟩

theorem inLoop (frame : BlockFrame env R) {check : Check α}
    (h : Keeps env (R n) check { s with loops := s.loops + 1 }) :
    Keeps env (R n) (Check.inLoop check) s :=
  ⟨frame.loop h.left, h.fault⟩

end Keeps

theorem checkCondition_keeps (frame : ExprFrame env R) (condition : Expr) :
    Keeps env (R 0) (checkCondition condition) s :=
  .seq frame.toFrame (checkExpr_keeps frame condition .read s) fun _ _ _ =>
    .judge frame.toFrame fun _ h => Ty.expect_error h

/-! ### Declarations of variables -/

/-- A value is taken over only if nothing was reported about it. -/
theorem bindDeclared_owned {declared found ty : Ty} {init : Expr}
    (h : bindDeclared declared init found env s = (.ok (ty, true), t)) : t = s := by
  simp only [bindDeclared, bind_apply, state] at h
  split_ifs at h <;> cases h
  rfl

theorem bindDeclared_keeps (frame : Frame R) (declared : Ty) (init : Expr) (found : Ty) :
    Keeps env (R 0) (bindDeclared declared init found) s := by
  refine .state ?_
  split
  · exact .seq frame (.report frame rfl) fun _ _ _ => .pure frame _
  · split
    · exact .seq frame (.report frame rfl) fun _ _ _ => .pure frame _
    · split
      · exact .pure frame _
      · exact .pure frame _

theorem declaredType_keeps (frame : Frame R) (type : Option TypeExpr) :
    Keeps env (R 0) (declaredType type) s := by
  cases type with
  | none => exact .pure frame _
  | some type => exact .map frame (.typeOrUnknown frame type)

/-- The type of a variable, once the type of the value is known that it is set to. -/
def boundType (init : Expr) : (declared found : Option Ty) → Check Ty
  | some ty, none => return ty
  | some ty, some found => do
      let (ty, owned) ← bindDeclared ty init found
      if owned then do
        takeOver init
        return ty
      else return ty
  | none, none => return .unknown
  | none, some found => do
      let language ← language
      takeOver init
      return language.settle found

theorem initType_eq (declared : Option Ty) (init : Expr) :
    initType declared init = (do
      let depth ← depth
      let found ← attempt (checkExpr init (.store depth))
      boundType init declared found) := by
  unfold initType boundType
  rfl

theorem boundType_keeps (frame : ExprFrame env R) {init : Expr} (declared : Option Ty)
    {found : Option Ty} (husable : found.isSome = true → Usable init s) :
    Keeps env (R 0) (boundType init declared found) s := by
  unfold boundType
  split
  · exact .pure frame.toFrame _
  · refine .seq frame.toFrame (bindDeclared_keeps frame.toFrame _ init _) fun bound u hbound => ?_
    rcases bound with ⟨ty, _ | _⟩
    · exact .pure frame.toFrame _
    · obtain rfl := bindDeclared_owned hbound
      exact .seq frame.toFrame (takeOver_keeps frame (husable rfl)) fun _ _ _ =>
        .pure frame.toFrame _
  · exact .pure frame.toFrame _
  · refine .language ?_
    exact .seq frame.toFrame (takeOver_keeps frame (husable rfl)) fun _ _ _ =>
      .pure frame.toFrame _

theorem initType_keeps (frame : ExprFrame env R) (declared : Option Ty) (init : Expr) :
    Keeps env (R 0) (initType declared init) s := by
  rw [initType_eq]
  refine .depth ?_
  exact .seq frame.toFrame (.attempt frame.toFrame (checkExpr_keeps frame init _ s))
    fun _ _ hrun => boundType_keeps frame declared (usable_of_attempt hrun)

theorem varType_keeps (frame : ExprFrame env R) (decl : VarDecl) :
    Keeps env (R 0) (varType decl) s := by
  refine .seq frame.toFrame (declaredType_keeps frame.toFrame decl.type) fun declared t _ => ?_
  split
  · exact initType_keeps frame _ _
  · exact .pure frame.toFrame _
  · exact .seq frame.toFrame (.report frame.toFrame rfl) fun _ _ _ => .pure frame.toFrame _

theorem checkVar_keeps (frame : BlockFrame env R) (decl : VarDecl) :
    Keeps env (R 1) (checkVar decl) s :=
  .seq frame.toFrame (varType_keeps frame.toExprFrame decl) fun _ _ _ => .declare frame _

/-! ### Assignments -/

theorem checkPlace_keeps (frame : ExprFrame env R) : ∀ (place : Expr) (s : State),
    Keeps env (R 0) (checkPlace place) s
  | .paren _ inner, s => by
      rw [checkPlace]
      exact checkPlace_keeps frame inner s
  | .ident span name, s => by
      rw [checkPlace]
      refine .seq frame.toFrame (.lookup frame.toFrame name span) fun symbol t _ => ?_
      split
      · exact .fail frame.toFrame rfl
      · refine .seq frame.toFrame (.useSymbol frame.toFrame symbol .write span) fun _ _ _ => ?_
        split
        · exact .fail frame.toFrame rfl
        · exact .pure frame.toFrame _
  | .member _ object property, s => by
      rw [checkPlace]
      refine .seq frame.toFrame (checkPlace_keeps frame object s) fun _ _ _ => ?_
      exact .seq frame.toFrame (.memberType frame.toFrame _ property) fun _ _ _ =>
        .pure frame.toFrame _
  | .index span object position, s => by
      rw [checkPlace]
      refine .seq frame.toFrame (checkPlace_keeps frame object s) fun _ t _ => ?_
      refine .seq frame.toFrame (checkExpr_keeps frame position .read t) fun _ _ _ => ?_
      exact .seq frame.toFrame (.elementType frame.toFrame _ _ _ span) fun _ _ _ =>
        .pure frame.toFrame _
  | .literal .., _ | .binary .., _ | .unary .., _ | .call .., _ | .construct .., _ | .convert .., _
  | .raw .., _ | .access .., _ => .fail frame.toFrame rfl

/-- Parentheses around a name do not matter. -/
theorem checkPlace_of_asIdent {name : String} : ∀ {place : Expr}, place.asIdent = some name →
    ∃ span, checkPlace place = checkPlace (.ident span name)
  | .ident span _, h => by
      cases h
      exact ⟨span, rfl⟩
  | .paren _ inner, h => by
      obtain ⟨span, hinner⟩ := checkPlace_of_asIdent (show inner.asIdent = some name from h)
      exact ⟨span, by rw [checkPlace, hinner]⟩

/-- A name that is written to as a place stands for a variable, and the rules allow the write. -/
theorem checkPlace_ident_eq_ok {name : String} {span : Span} {place : Ty × Nat}
    (h : checkPlace (.ident span name) env s = (.ok place, t)) :
    t = s ∧ ∃ symbol, s.table.find? name = some symbol ∧ symbol.isVar = true ∧
      s.checkUse symbol .write = .ok () ∧ (symbol.access? = none → symbol.isMutable = true) ∧
      place = (symbol.ty, symbol.depth) := by
  rw [checkPlace] at h
  obtain ⟨symbol, u, hlookup, hkind⟩ := bind_eq_ok h
  obtain ⟨hfind, rfl⟩ := lookup_eq_ok hlookup
  split at hkind
  · cases hkind
  · rename_i hvar
    obtain ⟨_, v, huse, hrest⟩ := bind_eq_ok hkind
    obtain ⟨hallowed, rfl⟩ := judge_eq_ok huse
    split at hrest
    · cases hrest
    · rename_i hmutable
      cases hrest
      refine ⟨rfl, symbol, hfind, by simpa using hvar, hallowed, fun haccess => ?_, rfl⟩
      simpa [haccess] using hmutable

/-- A variable that is assigned as a whole may be assigned, and is not held. -/
theorem checkTarget_eq_ok {name : String} {span : Span} {place : Ty × Nat}
    (h : checkTarget name span env s = (.ok place, t)) :
    t = s ∧ ∃ symbol, s.table.find? name = some symbol ∧ symbol.isVar = true ∧
      symbol.isMutable = true ∧ s.ledger.lastHold? symbol.key = none ∧
      place = (symbol.ty, symbol.depth) := by
  obtain ⟨symbol, u, hlookup, hkind⟩ := bind_eq_ok h
  obtain ⟨hfind, rfl⟩ := lookup_eq_ok hlookup
  rcases symbol with ⟨symbolName, kind, ty, visibility, depth, declared⟩
  cases kind with
  | var mutable state =>
      cases mutable with
      | false => cases hkind
      | true =>
          cases huse : u.ledger.checkUse ⟨symbolName, depth⟩ u.depth .write
              (u.modes.isActive .usurping) with
          | error violation =>
              simp only [bind_apply, Check.state, Symbol.key, huse] at hkind
              cases hkind
          | ok _ =>
              simp only [bind_apply, Check.state, Symbol.key, huse] at hkind
              cases hkind
              exact ⟨rfl, _, hfind, rfl, rfl, Ledger.lastHold?_of_checkUse huse, rfl⟩
  | _ => cases hkind

theorem checkTarget_keeps (frame : Frame R) (name : String) (span : Span) :
    Keeps env (R 0) (checkTarget name span) s := by
  refine .seq frame (.lookup frame name span) fun symbol t _ => ?_
  split
  · refine .state ?_
    simp only
    split
    · exact .pure frame _
    · exact .fail frame (Fault.ofViolation_ofProgram _)
  · exact .fail frame rfl
  · exact .fail frame rfl

theorem assignTarget_keeps (frame : ExprFrame env R) (target : Expr) :
    Keeps env (R 0) (assignTarget target) s := by
  unfold assignTarget
  split
  · exact checkTarget_keeps frame.toFrame _ _
  · exact checkPlace_keeps frame target s

theorem revive_apply (target : Expr) (env : Env) (s : State) :
    revive target env s = (.ok (), s) ∨
    ∃ name symbol, target.asIdent = some name ∧ s.table.find? name = some symbol ∧
      symbol.isMoved = true ∧
      revive target env s =
        (.ok (), { s with table := s.table.update name (Symbol.setState .live) }) := by
  unfold revive
  split
  · exact .inl rfl
  · rename_i name hname
    split
    · rename_i hmoved
      obtain ⟨symbol, hfind, hmoved⟩ := (Option.any_eq_true _ _).1 hmoved
      exact .inr ⟨name, symbol, hname, hfind, hmoved,
        setState_of_find? hfind .live target.span env⟩
    · exact .inl rfl

theorem revive_keeps (frame : StmtFrame env R) (target : Expr) :
    Keeps env (R 0) (revive target) s := by
  rcases revive_apply target env s with hrun | ⟨name, symbol, -, hfind, hmoved, hrun⟩
  · refine ⟨?_, fun _ h => by rw [hrun] at h; cases h⟩
    rw [hrun]
    exact frame.refl s
  · refine ⟨?_, fun _ h => by rw [hrun] at h; cases h⟩
    rw [hrun]
    exact frame.revive hfind hmoved

/-- An assignment up to the revival of its target: both sides are checked, and the value is taken
over. -/
def storeValue (target value : Expr) : Check Unit := do
  let (ty, depth) ← assignTarget target
  let found ← checkExpr value (.store depth)
  judge (ty.expect found) value.span
  let state ← state
  if !ty.isToken && state.table.isReferenceToken found then
    fail (.typeMismatch ty found) value.span
  else takeOver value

theorem checkAssign_eq (target value : Expr) :
    checkAssign target value = (do
      storeValue target value
      revive target) := by
  simp only [checkAssign, assignValue, storeValue, bind_assoc]
  refine bind_congr fun place => bind_congr fun found => bind_congr fun _ => bind_congr fun t => ?_
  split <;> rfl

theorem storeValue_keeps (frame : ExprFrame env R) (target value : Expr) :
    Keeps env (R 0) (storeValue target value) s := by
  refine .seq frame.toFrame (assignTarget_keeps frame target) fun _ t _ => ?_
  refine .seq frame.toFrame (checkExpr_keeps frame value _ t) fun found u hrun => ?_
  refine .seq frame.toFrame (.judge frame.toFrame fun _ h => Ty.expect_error h) fun _ v hjudge => ?_
  obtain ⟨-, rfl⟩ := judge_eq_ok hjudge
  refine .state ?_
  split
  · exact .fail frame.toFrame rfl
  · exact takeOver_keeps frame (usable_of_checkExpr hrun)

theorem checkAssign_keeps (frame : StmtFrame env R) (target value : Expr) :
    Keeps env (R 0) (checkAssign target value) s := by
  rw [checkAssign_eq]
  exact .seq frame.toFrame (storeValue_keeps frame.toExprFrame target value) fun _ _ _ =>
    revive_keeps frame target

/-! ### Statements -/

theorem checkReturn_keeps (frame : ExprFrame env R) (value : Option Expr) (span : Span) :
    Keeps env (R 0) (checkReturn value span) s := by
  refine .state ?_
  split
  · exact .fail frame.toFrame rfl
  · split
    · exact .seq frame.toFrame (checkExpr_keeps frame _ .give s) fun _ _ _ =>
        .judge frame.toFrame fun _ h => Ty.expect_error h
    · split
      · exact .pure frame.toFrame _
      · exact .fail frame.toFrame rfl

theorem checkPattern_keeps (frame : BlockFrame env R) (pattern : Pattern) (subject : Ty) :
    Keeps env (R 1) (checkPattern pattern subject) s := by
  unfold checkPattern
  split
  · exact .weaken frame.toFrame (Nat.zero_le 1) (.pure frame.toFrame _)
  · exact .weaken frame.toFrame (Nat.zero_le 1) (.require frame.toFrame rfl)
  · exact .reporting frame.toFrame (.declare frame _)

theorem checkGuard_keeps (frame : BlockFrame env R) (guard : Option Expr) :
    Keeps env (R 0) (checkGuard guard) s := by
  unfold checkGuard
  split
  · exact .pure frame.toFrame _
  · exact .reporting frame.toFrame
      (.withMode frame (checkCondition_keeps frame.toExprFrame _))

theorem requireUnsafeBlocks_keeps (frame : Frame R) (construct : Construct) (span : Span) :
    Keeps env (R 0) (requireUnsafeBlocks construct span) s :=
  .language (.require frame rfl)

theorem requireLoop_keeps (frame : Frame R) {misuse : Misuse} {span : Span} :
    Keeps env (R 0) (if s.loops = 0 then fail (.misuse misuse) span else pure ()) s := by
  split
  · exact .fail frame rfl
  · exact .pure frame _

/-- A frame for the statements with the property `P`: the parts of a statement inherit it, and an
assignment that has it keeps to the frame. -/
structure GuardedFrame (env : Env) (R : Nat → State → State → Prop) (P : Task → State → Prop) :
    Prop extends BlockFrame env R where
  parts : ∀ {task s part t}, Visits env task s part t → P task s → P part t
  assign : ∀ {span target value s}, P (.stmt (.assign span target value)) s →
    Keeps env (R 0) (checkAssign target value) s

theorem StmtFrame.guarded (frame : StmtFrame env R) : GuardedFrame env R fun _ _ => True where
  toBlockFrame := frame.toBlockFrame
  parts _ _ := trivial
  assign _ := checkAssign_keeps frame _ _

section
variable {P : Task → State → Prop} (frame : GuardedFrame env R P)
include frame

mutual
theorem checkStmt_keeps_of : ∀ (stmt : Stmt) (s : State), P (.stmt stmt) s →
    Keeps env (R 1) (checkStmt stmt) s
  | .expr _ value, s, _ => by
      rw [checkStmt]
      refine .seq frame.toFrame (checkExpr_keeps frame.toExprFrame value .read s) fun _ _ _ => ?_
      exact .weaken frame.toFrame (Nat.zero_le 1) (.pure frame.toFrame _)
  | .var _ decl, s, _ => by
      rw [checkStmt]
      exact checkVar_keeps frame.toBlockFrame decl
  | .assign _ target value, s, hs => by
      rw [checkStmt]
      exact .weaken frame.toFrame (Nat.zero_le 1) (frame.assign hs)
  | .give span value, s, _ => by
      rw [checkStmt]
      exact .weaken frame.toFrame (Nat.zero_le 1) (checkReturn_keeps frame.toExprFrame value span)
  | .branch _ condition body otherwise, s, hs => by
      unfold checkStmt
      refine .seq frame.toFrame (.reporting frame.toFrame
        (checkCondition_keeps frame.toExprFrame condition)) fun _ t hcondition => ?_
      refine .seq frame.toFrame (.withScope frame.toBlockFrame (checkStmts_keeps_of body t.openScope
        (frame.parts (.branchBody hcondition) hs))) fun _ u hbody => ?_
      cases otherwise with
      | none => exact .weaken frame.toFrame (Nat.zero_le 1) (.pure frame.toFrame _)
      | some stmt =>
          refine checkStmt_keeps_of stmt u (frame.parts (.otherwise ?_) hs)
          rw [bind_apply, hcondition]
          exact hbody
  | .whileLoop _ condition body, s, hs => by
      rw [checkStmt]
      refine .seq frame.toFrame (.reporting frame.toFrame
        (checkCondition_keeps frame.toExprFrame condition)) fun _ t hcondition => ?_
      refine .weaken frame.toFrame (Nat.zero_le 1) (.inLoop frame.toBlockFrame ?_)
      exact .withScope frame.toBlockFrame
        (checkStmts_keeps_of body _ (frame.parts (.loopBody hcondition) hs))
  | .forLoop _ binding items body, s, hs => by
      rw [checkStmt]
      refine .seq frame.toFrame (checkExpr_keeps frame.toExprFrame items .read s)
        fun _ t hitems => ?_
      refine .weaken frame.toFrame (Nat.zero_le 1) ?_
      split
      · exact .fail frame.toFrame rfl
      · rename_i element hty
        refine .withScope (n := 1 + body.length) frame.toBlockFrame ?_
        refine .bind frame.toFrame (.reporting frame.toFrame (.declare frame.toBlockFrame _))
          fun _ u hbinding => ?_
        exact .inLoop frame.toBlockFrame
          (checkStmts_keeps_of body _ (frame.parts (.forBody hitems hty hbinding) hs))
  | .choose _ subject arms, s, hs => by
      rw [checkStmt]
      refine .seq frame.toFrame (checkExpr_keeps frame.toExprFrame subject .read s)
        fun ty t hsubject => ?_
      exact .weaken frame.toFrame (Nat.zero_le 1)
        (checkArms_keeps_of ty arms t (frame.parts (.arms hsubject) hs))
  | .block _ body, s, hs => by
      rw [checkStmt]
      exact .weaken frame.toFrame (Nat.zero_le 1)
        (.withScope frame.toBlockFrame (checkStmts_keeps_of body _ (frame.parts .block hs)))
  | .danger span body, s, hs => by
      rw [checkStmt]
      refine .seq frame.toFrame (requireUnsafeBlocks_keeps frame.toFrame _ span)
        fun _ t hlanguage => ?_
      refine .weaken frame.toFrame (Nat.zero_le 1) (.withMode frame.toBlockFrame ?_)
      exact .withScope frame.toBlockFrame
        (checkStmts_keeps_of body _ (frame.parts (.danger hlanguage) hs))
  | .mayhem span body, s, hs => by
      rw [checkStmt]
      refine .seq frame.toFrame (requireUnsafeBlocks_keeps frame.toFrame _ span)
        fun _ t hlanguage => ?_
      refine .weaken frame.toFrame (Nat.zero_le 1) (.withMode frame.toBlockFrame ?_)
      exact .withScope frame.toBlockFrame
        (checkStmts_keeps_of body _ (frame.parts (.mayhem hlanguage) hs))
  | .access span kind source token body, s, hs => by
      rw [checkStmt]
      exact .weaken frame.toFrame (Nat.zero_le 1) (withAccess_keeps frame.toExprFrame
        fun _ t hopen => checkStmts_keeps_of body t (frame.parts (.accessBody hopen) hs))
  | .leaveLoop span, s, _ => by
      rw [checkStmt]
      exact .weaken frame.toFrame (Nat.zero_le 1) (.state (requireLoop_keeps frame.toFrame))
  | .nextRound span, s, _ => by
      rw [checkStmt]
      exact .weaken frame.toFrame (Nat.zero_le 1) (.state (requireLoop_keeps frame.toFrame))
  | .raise _ value, s, _ => by
      rw [checkStmt]
      refine .seq frame.toFrame (checkExpr_keeps frame.toExprFrame value _ s) fun _ _ _ => ?_
      exact .weaken frame.toFrame (Nat.zero_le 1) (.pure frame.toFrame _)

theorem checkStmts_keeps_of : ∀ (stmts : List Stmt) (s : State), P (.stmts stmts) s →
    Keeps env (R stmts.length) (checkStmts stmts) s
  | [], _, _ => by
      rw [checkStmts]
      exact .pure frame.toFrame _
  | stmt :: stmts, s, hs => by
      rw [checkStmts, List.length_cons, Nat.add_comm]
      exact .bind frame.toFrame
        (.reporting frame.toFrame (checkStmt_keeps_of stmt s (frame.parts .firstStmt hs)))
        fun _ t hstmt => checkStmts_keeps_of stmts t (frame.parts (.otherStmts hstmt) hs)

theorem checkArms_keeps_of (subject : Ty) : ∀ (arms : List (Arm Stmt)) (s : State),
    P (.arms subject arms) s → Keeps env (R 0) (checkArms subject arms) s
  | [], _, _ => by
      rw [checkArms]
      exact .pure frame.toFrame _
  | ⟨pattern, guard, body⟩ :: arms, s, hs => by
      rw [checkArms]
      refine .seq frame.toFrame (.withScope (n := 1 + body.length) frame.toBlockFrame ?_)
        fun _ t harm => checkArms_keeps_of subject arms t (frame.parts (.otherArms harm) hs)
      refine .bind frame.toFrame (checkPattern_keeps frame.toBlockFrame pattern subject)
        fun _ t hpattern => ?_
      refine .seq frame.toFrame (checkGuard_keeps frame.toBlockFrame guard) fun _ u hguard => ?_
      refine checkStmts_keeps_of body u (frame.parts (.armBody ?_) hs)
      rw [bind_apply, hpattern]
      exact hguard
end

end

section
variable (frame : StmtFrame env R)
include frame

theorem checkStmt_keeps (stmt : Stmt) (s : State) : Keeps env (R 1) (checkStmt stmt) s :=
  checkStmt_keeps_of frame.guarded stmt s trivial

theorem checkStmts_keeps (stmts : List Stmt) (s : State) :
    Keeps env (R stmts.length) (checkStmts stmts) s :=
  checkStmts_keeps_of frame.guarded stmts s trivial

theorem checkArms_keeps (subject : Ty) (arms : List (Arm Stmt)) (s : State) :
    Keeps env (R 0) (checkArms subject arms) s :=
  checkArms_keeps_of frame.guarded subject arms s trivial

/-- One case of a `when`, apart from its scope. -/
theorem arm_keeps (pattern : Pattern) (subject : Ty) (guard : Option Expr) (body : List Stmt)
    (s : State) :
    Keeps env (R (1 + body.length)) (do
      checkPattern pattern subject
      checkGuard guard
      checkStmts body) s :=
  .bind frame.toFrame (checkPattern_keeps frame.toBlockFrame pattern subject) fun _ _ _ =>
    .seq frame.toFrame (checkGuard_keeps frame.toBlockFrame guard) fun _ t _ =>
      checkStmts_keeps frame body t

end

end Custody.Check
