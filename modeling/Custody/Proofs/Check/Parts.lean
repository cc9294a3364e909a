import Custody.Proofs.Check.Stmt

/-! A check is made of the checks of its parts. One step of it is written with what is done with a part
left open: filled in with the checks of the parts, it is the check itself. It asks for a part in no
other state than those in which the part is visited. So whatever is known of all visited pieces is
known of all that the check does. -/

namespace Custody.Check

/-- What the check of a piece comes to. -/
abbrev Task.Result : Task → Type
  | .expr _ _ => Ty
  | .inits _ _ _ _ => List String
  | .place _ => Ty × Nat
  | .args _ _ | .looseArgs _ | .stmt _ | .stmts _ | .arms _ _ | .items _ => Unit

def Task.check : (task : Task) → Check task.Result
  | .expr e use => checkExpr e use
  | .args es params => checkArgs es params
  | .looseArgs es => checkLooseArgs es
  | .inits owner fields values seen => checkInits owner fields values seen
  | .place e => checkPlace e
  | .stmt first => checkStmt first
  | .stmts body => checkStmts body
  | .arms subject cases => checkArms subject cases
  | .items program => checkItems program

/-! ### One step -/

section Step

variable (parts : (part : Task) → Check part.Result)

def exprBy : Expr → Use → Check Ty
  | .literal _ value, _ => pure value.ty
  | .ident span name, use => checkIdent name use span
  | .paren _ inner, use => parts (.expr inner use)
  | .binary span left op right, _ => do
      let left ← parts (.expr left .read)
      let right ← parts (.expr right .read)
      judge (Ty.binary left op right) span
  | .unary span op operand, _ => do
      let operand ← parts (.expr operand .read)
      judge (Ty.unary op operand) span
  | .call span callee args, _ => do
      rejectTypeCallee callee
      let ty : Ty ← parts (.expr callee .read)
      match ty.strip with
      | .routine params result => do
          require (params.length == args.length)
            (.arityMismatch callee.spelled params.length args.length) span
          parts (.args args params)
          return result
      | .unknown => do
          parts (.looseArgs args)
          return .unknown
      | _ => fail (.notCallable callee.spelled) callee.span
  | .member _ object property, _ => do
      match ← namedModule object with
      | some (name, path) => checkQualified name path property
      | none => do
          let object ← parts (.expr object .read)
          memberType object property
  | .index span object position, _ => do
      let ty ← parts (.expr object .read)
      let positionTy ← parts (.expr position .read)
      elementType ty positionTy position.span span
  | .construct span type inits, _ => do
      let symbol ← lookup type.name type.span
      match symbol.fields? with
      | none => fail (.notCallable type.name) type.span
      | some fields => do
          let seen ← parts (.inits symbol.ty fields inits [])
          reportMissing type.name seen span fields
          return symbol.ty
  | .convert span operand target, _ => do
      let source ← parts (.expr operand .read)
      let target ← rule (·.table.resolve target)
      judge (Ty.convert source target) span
      return target
  | .raw span op type args, _ => do
      requireUnsafe op span
      match op, args with
      | .addressOf, [arg] =>
          if arg.asIdent.isNone then fail (.misuse .addressOfNonVariable) arg.span
          else do
            let _ ← parts (.expr arg .read)
            return .num .uaddr
      | .readAs, [address] => do
          let target ← rawType op type span
          let ty ← parts (.expr address .read)
          expectAddress ty address.span
          return target
      | .writeAs, [address, value] => do
          let target ← rawType op type span
          let ty ← parts (.expr address .read)
          expectAddress ty address.span
          let found ← parts (.expr value (.argument false))
          judge (target.expect found) value.span
          return .blank
      | _, _ => fail (.arityMismatch op.render op.arity args.length) span
  | .access span kind source token body, _ => do
      let depth ← depth
      withAccess span kind source token (parts (.expr body (.store depth)))

def argsBy : List Expr → List Ty → Check Unit
  | [], _ => return
  | arg :: args, [] => do
      let _ ← attempt (parts (.expr arg .read))
      parts (.args args [])
  | arg :: args, param :: params => do
      let found ← attempt (parts (.expr arg (.argument param.isToken)))
      passArgument param arg found
      parts (.args args params)

def looseArgsBy : List Expr → Check Unit
  | [] => return
  | arg :: args => do
      let _ ← attempt (parts (.expr arg (.argument false)))
      parts (.looseArgs args)

def initsBy (owner : Ty) (fields : List (String × Ty)) :
    List (FieldInit Expr) → (seen : List String) → Check (List String)
  | [], seen => return seen
  | ⟨name, value⟩ :: inits, seen => do
      let found ← attempt (parts (.expr value (.argument false)))
      if name.name ∈ seen then do
        report (.duplicateDeclaration name.name) name.span
        parts (.inits owner fields inits seen)
      else do
        initField owner fields name value found
        parts (.inits owner fields inits (seen ++ [name.name]))

def conditionBy (condition : Expr) : Check Unit := do
  let ty ← parts (.expr condition .read)
  judge (Ty.bool.expect ty) condition.span

def initTypeBy (declared : Option Ty) (init : Expr) : Check Ty := do
  let depth ← depth
  let found : Option Ty ← attempt (parts (.expr init (.store depth)))
  match declared, found with
  | some ty, none => return ty
  | some ty, some found => do
      let (ty, owned) ← bindDeclared ty init found
      if owned then do
        takeOver init
        return ty
      else return ty
  | none, none => return .unknown
  | none, some found => do
      let language ← language
      takeOver init
      return language.settle found

def varTypeBy (decl : VarDecl) : Check Ty := do
  let declared ← declaredType decl.type
  match decl.init, declared with
  | some init, declared => initTypeBy parts declared init
  | none, some ty => return ty
  | none, none => do
      report (.cannotInfer decl.name.name) decl.name.span
      return .unknown

def varBy (decl : VarDecl) : Check Unit := do
  let ty ← varTypeBy parts decl
  declare { Symbol.var decl.name.name ty decl.mutable decl.name.span with
    visibility := decl.visibility }

def placeBy : Expr → Check (Ty × Nat)
  | .paren _ inner => parts (.place inner)
  | .ident span name => checkPlace (.ident span name)
  | .member _ object property => do
      let (ty, depth) ← parts (.place object)
      return (← memberType ty property, depth)
  | .index span object position => do
      let (ty, depth) ← parts (.place object)
      let positionTy ← parts (.expr position .read)
      return (← elementType ty positionTy position.span span, depth)
  | place => fail (.misuse .assignTarget) place.span

def assignTargetBy : Expr → Check (Ty × Nat)
  | .ident span name => checkTarget name span
  | place => parts (.place place)

def assignBy (target value : Expr) : Check Unit := do
  let (ty, depth) ← assignTargetBy parts target
  let found ← parts (.expr value (.store depth))
  judge (ty.expect found) value.span
  let state ← state
  if !ty.isToken && state.table.isReferenceToken found then
    fail (.typeMismatch ty found) value.span
  else do
    takeOver value
    revive target

def returnBy (value : Option Expr) (span : Span) : Check Unit := do
  let state ← state
  match state.result with
  | none => fail (.misuse .returnOutsideRoutine) span
  | some expected =>
      match value with
      | some value => do
          let found ← parts (.expr value .give)
          judge (expected.expect found) value.span
      | none =>
          if expected = .blank ∨ expected = .unknown then return
          else fail (.typeMismatch expected .blank) span

def guardBy (guard : Option Expr) : Check Unit :=
  match guard with
  | none => return
  | some condition => reporting (withMode .whenGuard (conditionBy parts condition))

def stmtBy : Stmt → Check Unit
  | .expr _ value => do
      let _ ← parts (.expr value .read)
  | .var _ decl => varBy parts decl
  | .assign _ target value => assignBy parts target value
  | .give span value => returnBy parts value span
  | .branch _ condition body otherwise => do
      reporting (conditionBy parts condition)
      withScope (parts (.stmts body))
      match otherwise with
      | none => return
      | some stmt => parts (.stmt stmt)
  | .whileLoop _ condition body => do
      reporting (conditionBy parts condition)
      inLoop (withScope (parts (.stmts body)))
  | .forLoop _ binding items body => do
      let ty : Ty ← parts (.expr items .read)
      match ty.element? with
      | none => fail (.misuse (.notIterable ty)) items.span
      | some element =>
          withScope do
            reporting (declare (Symbol.var binding.name element false binding.span))
            inLoop (parts (.stmts body))
  | .choose _ subject arms => do
      let ty ← parts (.expr subject .read)
      parts (.arms ty arms)
  | .block _ body => withScope (parts (.stmts body))
  | .danger span body => do
      requireUnsafeBlocks .dangerBlock span
      withMode .danger (withScope (parts (.stmts body)))
  | .mayhem span body => do
      requireUnsafeBlocks .mayhemBlock span
      withMode .mayhem (withScope (parts (.stmts body)))
  | .access span kind source token body =>
      withAccess span kind source token (parts (.stmts body))
  | .leaveLoop span => checkStmt (.leaveLoop span)
  | .nextRound span => checkStmt (.nextRound span)
  | .raise _ value => do
      let _ ← parts (.expr value (.argument false))

def stmtsBy : List Stmt → Check Unit
  | [] => return
  | stmt :: stmts => do
      reporting (parts (.stmt stmt))
      parts (.stmts stmts)

def armsBy (subject : Ty) : List (Arm Stmt) → Check Unit
  | [] => return
  | ⟨pattern, guard, body⟩ :: arms => do
      withScope do
        checkPattern pattern subject
        guardBy parts guard
        parts (.stmts body)
      parts (.arms subject arms)

def routineBy (routine : Routine) : Check Unit := do
  let (params, result) ← declareRoutine routine
  match routine.body with
  | none => return
  | some body =>
      inRoutine result (withScope do
        declareParams (routine.params.zip params)
        if routine.usurping then withMode .usurping (parts (.stmts body)) else parts (.stmts body))

def itemBy : LinkedItem → Check Unit
  | .decl (.routine routine) => routineBy parts routine
  | .decl (.var decl) => varBy parts decl
  | .decl (.type decl) => checkTypeDecl decl
  | .load request answer => checkImport request answer

def itemsBy : List LinkedItem → Check Unit
  | [] => return
  | item :: items => do
      reporting (itemBy parts item)
      parts (.items items)

/-- One step of the check of a piece, with `parts` for its parts. -/
def Task.checkBy : (task : Task) → Check task.Result
  | .expr e use => exprBy parts e use
  | .args es params => argsBy parts es params
  | .looseArgs es => looseArgsBy parts es
  | .inits owner fields values seen => initsBy parts owner fields values seen
  | .place e => placeBy parts e
  | .stmt first => stmtBy parts first
  | .stmts body => stmtsBy parts body
  | .arms subject cases => armsBy parts subject cases
  | .items program => itemsBy parts program

end Step

/-! ### The check itself -/

theorem exprBy_check (expr : Expr) (use : Use) : exprBy Task.check expr use = checkExpr expr use := by
  cases expr with
  | raw span op type args =>
      cases op <;> rcases args with _ | ⟨_, _ | ⟨_, _ | ⟨_, _⟩⟩⟩ <;> rfl
  | _ =>
      rw [checkExpr]
      rfl

theorem placeBy_check (place : Expr) : placeBy Task.check place = checkPlace place := by
  cases place <;> rfl

theorem assignTargetBy_check (target : Expr) :
    assignTargetBy Task.check target = assignTarget target := by
  cases target <;> rfl

theorem stmtBy_check (stmt : Stmt) : stmtBy Task.check stmt = checkStmt stmt := by
  cases stmt with
  | branch span condition body otherwise => cases otherwise <;> rw [checkStmt] <;> rfl
  | assign span target value => cases target <;> rw [checkStmt] <;> rfl
  | _ =>
      rw [checkStmt]
      rfl

theorem itemBy_check (item : LinkedItem) : itemBy Task.check item = checkItem item := by
  rcases item with ⟨request, answer⟩ | routine | decl | decl <;> rfl

/-- Filled in with the checks of the parts, a step is the check. -/
theorem Task.checkBy_check (task : Task) : task.checkBy Task.check = task.check := by
  cases task with
  | expr expr use => exact exprBy_check expr use
  | args args params => cases args <;> cases params <;> rfl
  | looseArgs args => cases args <;> rfl
  | inits owner fields inits seen => cases inits <;> rfl
  | place place => exact placeBy_check place
  | stmt stmt => exact stmtBy_check stmt
  | stmts stmts => cases stmts <;> rfl
  | arms subject arms => cases arms <;> rfl
  | items items =>
      cases items with
      | nil => rfl
      | cons item items => exact congrArg (reporting · >>= fun _ => checkItems items) (itemBy_check item)

/-! ### Runs that are the same from one state on -/

section SameAt

variable {α β : Type} {env : Env} {s : State} {check check' : Check α} {next next' : α → Check β}

theorem bind_at (h : check env s = check' env s)
    (hnext : ∀ a t, check' env s = (.ok a, t) → next a env t = next' a env t) :
    (check >>= next) env s = (check' >>= next') env s := by
  rw [bind_apply, bind_apply, h]
  rcases hrun : check' env s with ⟨diagnostic | a, t⟩
  · rfl
  · exact hnext a t hrun

theorem attempt_at (h : check env s = check' env s) : attempt check env s = attempt check' env s := by
  unfold attempt
  rw [h]

theorem reporting_at {check check' : Check Unit} (h : check env s = check' env s) :
    reporting check env s = reporting check' env s :=
  bind_at (attempt_at h) fun _ _ _ => rfl

theorem bracket_at {before : State → State} {after : State → State → State}
    (h : check env (before s) = check' env (before s)) :
    bracket before after check env s = bracket before after check' env s := by
  simp only [bracket, h]

theorem withScope_at (h : check env s.openScope = check' env s.openScope) :
    withScope check env s = withScope check' env s :=
  bracket_at h

theorem withMode_at {mode : Mode} (h : check env (s.enterMode mode) = check' env (s.enterMode mode)) :
    withMode mode check env s = withMode mode check' env s :=
  bracket_at h

theorem inLoop_at (h : check env { s with loops := s.loops + 1 } =
    check' env { s with loops := s.loops + 1 }) : inLoop check env s = inLoop check' env s :=
  bracket_at h

theorem inRoutine_at {result : Ty} (h : check env { s with result := some result, loops := 0 } =
    check' env { s with result := some result, loops := 0 }) :
    inRoutine result check env s = inRoutine result check' env s :=
  bracket_at h

theorem withAccess_at {span : Span} {kind : Access} {source token : Ident}
    (h : ∀ opened t, openAccess span kind source token env s = (.ok opened, t) →
      check env t = check' env t) :
    withAccess span kind source token check env s = withAccess span kind source token check' env s := by
  obtain ⟨opened, t, hopen, -⟩ := openAccess_opens span kind source token env s
  rw [withAccess_apply hopen, withAccess_apply hopen, h opened t hopen]

end SameAt

/-! ### Where a step asks for its parts -/

section Asked

variable {parts : (part : Task) → Check part.Result} {env : Env} {s : State}

theorem conditionBy_at {condition : Expr} (h : parts (.expr condition .read) env s =
    checkExpr condition .read env s) :
    conditionBy parts condition env s = checkCondition condition env s :=
  bind_at h fun _ _ _ => rfl

theorem initTypeBy_at {declared : Option Ty} {init : Expr}
    (h : parts (.expr init (.store s.depth)) env s = checkExpr init (.store s.depth) env s) :
    initTypeBy parts declared init env s = initType declared init env s := by
  refine bind_at rfl fun depth t hdepth => ?_
  cases hdepth
  exact bind_at (attempt_at h) fun _ _ _ => rfl

theorem varBy_at {decl : VarDecl} (h : ∀ init declared t, decl.init = some init →
    declaredType decl.type env s = (.ok declared, t) →
      parts (.expr init (.store t.depth)) env t = checkExpr init (.store t.depth) env t) :
    varBy parts decl env s = checkVar decl env s := by
  refine bind_at (bind_at rfl fun declared t htype => ?_) fun _ _ _ => rfl
  cases hinit : decl.init with
  | some init => exact initTypeBy_at (h init declared t hinit htype)
  | none => cases declared <;> rfl

theorem exprBy_at {expr : Expr} {use : Use}
    (h : ∀ part t, Visits env (.expr expr use) s part t → parts part env t = part.check env t) :
    exprBy parts expr use env s = exprBy Task.check expr use env s := by
  cases expr with
  | literal | ident => rfl
  | paren span inner => exact h _ _ .inner
  | binary span left op right =>
      exact bind_at (h _ _ .left) fun _ _ hleft => bind_at (h _ _ (.right hleft)) fun _ _ _ => rfl
  | unary span op operand => exact bind_at (h _ _ .operand) fun _ _ _ => rfl
  | call span callee args =>
      refine bind_at rfl fun _ t hreject => bind_at (h _ _ (.callee hreject)) fun ty u hrun => ?_
      have hcallee : (do
          rejectTypeCallee callee
          checkExpr callee .read) env s = (.ok ty, u) := (bind_of_run hreject).trans hrun
      cases hty : ty.strip with
      | routine params result =>
          exact bind_at rfl fun _ v harity =>
            bind_at (h _ _ (.args hcallee hty harity)) fun _ _ _ => rfl
      | unknown => exact bind_at (h _ _ (.looseArgs hcallee hty)) fun _ _ _ => rfl
      | _ => rfl
  | member span object property =>
      refine bind_at rfl fun named t hnamed => ?_
      cases named with
      | some named => rfl
      | none => exact bind_at (h _ _ (.object hnamed)) fun _ _ _ => rfl
  | index span object position =>
      exact bind_at (h _ _ .indexed) fun _ _ hobject =>
        bind_at (h _ _ (.position hobject)) fun _ _ _ => rfl
  | construct span type inits =>
      refine bind_at rfl fun symbol t hlookup => ?_
      cases hfields : symbol.fields? with
      | none => rfl
      | some fields =>
          exact bind_at (h _ _ (.inits hlookup hfields)) fun _ _ _ => rfl
  | convert span operand target => exact bind_at (h _ _ .converted) fun _ _ _ => rfl
  | raw span op type args =>
      refine bind_at rfl fun _ t hmode => ?_
      rcases op with _ | _ | _ <;> rcases args with _ | ⟨first, _ | ⟨second, _ | ⟨third, rest⟩⟩⟩ <;>
        try rfl
      · cases hname : first.asIdent.isNone with
        | true =>
            simp only [hname]
            rfl
        | false =>
            simp only [hname]
            exact bind_at (h _ _ (.addressOf hmode hname)) fun _ _ _ => rfl
      · exact bind_at rfl fun target u htype =>
          bind_at (h _ _ (.readAddress ((bind_of_run hmode).trans htype))) fun _ _ _ => rfl
      · refine bind_at rfl fun target u htype => bind_at
          (h _ _ (.writeAddress ((bind_of_run hmode).trans htype))) fun ty v haddress =>
          bind_at rfl fun _ w hexpect => bind_at (h _ _ (.written ?_)) fun _ _ _ => rfl
        exact (bind_of_run hmode).trans
          ((bind_of_run htype).trans ((bind_of_run haddress).trans hexpect))
  | access span kind source token body =>
      refine bind_at rfl fun depth t hdepth => ?_
      cases hdepth
      exact withAccess_at fun opened t hopen => h _ _ (.underAccess hopen)

theorem initsBy_at {owner : Ty} {fields : List (String × Ty)} {inits : List (FieldInit Expr)}
    {seen : List String} (h : ∀ part t, Visits env (.inits owner fields inits seen) s part t →
      parts part env t = part.check env t) :
    initsBy parts owner fields inits seen env s = initsBy Task.check owner fields inits seen env s := by
  rcases inits with _ | ⟨⟨name, value⟩, inits⟩
  · rfl
  refine bind_at (attempt_at (h _ _ .firstInit)) fun found t hfound => ?_
  by_cases hseen : name.name ∈ seen
  · simp only [if_pos hseen]
    exact bind_at rfl fun _ u hreport =>
      h _ _ (.initsAfterRepeated ((bind_of_run hfound).trans hreport) hseen)
  · simp only [if_neg hseen]
    exact bind_at rfl fun _ u hinit => h _ _ (.otherInits ((bind_of_run hfound).trans hinit) hseen)

theorem placeBy_at {place : Expr} (h : ∀ part t, Visits env (.place place) s part t →
    parts part env t = part.check env t) :
    placeBy parts place env s = placeBy Task.check place env s := by
  cases place with
  | paren span inner => exact h _ _ .innerPlace
  | member span object property => exact bind_at (h _ _ .objectPlace) fun _ _ _ => rfl
  | index span object position =>
      exact bind_at (h _ _ .indexedPlace) fun _ _ hplace =>
        bind_at (h _ _ (.placePosition hplace)) fun _ _ _ => rfl
  | _ => rfl

theorem assignTargetBy_at {target : Expr}
    (h : (∀ span name, target ≠ .ident span name) → parts (.place target) env s =
      checkPlace target env s) :
    assignTargetBy parts target env s = assignTargetBy Task.check target env s := by
  cases target with
  | ident span name => rfl
  | _ => exact h fun _ _ hident => by cases hident

theorem stmtBy_at {stmt : Stmt} (h : ∀ part t, Visits env (.stmt stmt) s part t →
    parts part env t = part.check env t) :
    stmtBy parts stmt env s = stmtBy Task.check stmt env s := by
  cases stmt with
  | expr span value => exact bind_at (h _ _ .value) fun _ _ _ => rfl
  | var span decl => exact varBy_at fun init declared t hinit htype => h _ _ (.init hinit htype)
  | assign span target value =>
      refine bind_at (assignTargetBy_at fun hplace => h _ _ (.target hplace)) fun place t htarget => ?_
      rw [assignTargetBy_check] at htarget
      exact bind_at (h _ _ (.assigned htarget)) fun _ _ _ => rfl
  | give span value =>
      refine bind_at rfl fun state t hstate => ?_
      cases hstate
      cases hresult : s.result with
      | none => rfl
      | some expected =>
          cases value with
          | none => rfl
          | some value => exact bind_at (h _ _ (.given hresult)) fun _ _ _ => rfl
  | branch span condition body otherwise =>
      refine bind_at (reporting_at (conditionBy_at (h _ _ .branchCondition))) fun _ t hcondition =>
        bind_at (withScope_at (h _ _ (.branchBody hcondition))) fun _ u hbody => ?_
      cases otherwise with
      | none => rfl
      | some stmt => exact h _ _ (.otherwise ((bind_of_run hcondition).trans hbody))
  | whileLoop span condition body =>
      exact bind_at (reporting_at (conditionBy_at (h _ _ .loopCondition))) fun _ t hcondition =>
        inLoop_at (withScope_at (h _ _ (.loopBody hcondition)))
  | forLoop span binding items body =>
      refine bind_at (h _ _ .iterated) fun ty t hitems => ?_
      cases hty : ty.element? with
      | none => rfl
      | some element =>
          exact withScope_at (bind_at rfl fun _ u hbinding =>
            inLoop_at (h _ _ (.forBody hitems hty hbinding)))
  | choose span subject arms =>
      exact bind_at (h _ _ .subject) fun _ _ hsubject => h _ _ (.arms hsubject)
  | block span body => exact withScope_at (h _ _ .block)
  | danger span body =>
      exact bind_at rfl fun _ _ hlanguage => withMode_at (withScope_at (h _ _ (.danger hlanguage)))
  | mayhem span body =>
      exact bind_at rfl fun _ _ hlanguage => withMode_at (withScope_at (h _ _ (.mayhem hlanguage)))
  | access span kind source token body =>
      exact withAccess_at fun opened t hopen => h _ _ (.accessBody hopen)
  | leaveLoop | nextRound => rfl
  | raise span value => exact bind_at (h _ _ .raised) fun _ _ _ => rfl

theorem armsBy_at {subject : Ty} {arms : List (Arm Stmt)}
    (h : ∀ part t, Visits env (.arms subject arms) s part t → parts part env t = part.check env t) :
    armsBy parts subject arms env s = armsBy Task.check subject arms env s := by
  rcases arms with _ | ⟨⟨pattern, guard, body⟩, arms⟩
  · rfl
  refine bind_at (withScope_at (bind_at rfl fun _ t hpattern => bind_at ?_ fun _ u hguard =>
    h _ _ (.armBody ((bind_of_run hpattern).trans hguard)))) fun _ v harm => h _ _ (.otherArms harm)
  cases guard with
  | none => rfl
  | some condition => exact reporting_at (withMode_at (conditionBy_at (h _ _ (.guard hpattern))))

theorem routineBy_at {routine : Routine} {items : List LinkedItem}
    (h : ∀ part t, Visits env (.items (.decl (.routine routine) :: items)) s part t →
      parts part env t = part.check env t) :
    routineBy parts routine env s = routineBy Task.check routine env s := by
  refine bind_at rfl fun signature t hroutine => ?_
  cases hbody : routine.body with
  | none => rfl
  | some body =>
      refine inRoutine_at (withScope_at (bind_at rfl fun _ u hparams => ?_))
      have hvisit := h _ _ (.routineBody hbody hroutine hparams)
      cases husurping : routine.usurping with
      | true =>
          rw [husurping] at hvisit
          exact withMode_at hvisit
      | false =>
          rw [husurping] at hvisit
          exact hvisit

theorem itemsBy_at {items : List LinkedItem}
    (h : ∀ part t, Visits env (.items items) s part t → parts part env t = part.check env t) :
    itemsBy parts items env s = itemsBy Task.check items env s := by
  rcases items with _ | ⟨item, items⟩
  · rfl
  refine bind_at (reporting_at ?_) fun _ t hitem => h _ _ (.otherItems ?_)
  · rcases item with ⟨request, answer⟩ | routine | decl | decl
    · rfl
    · exact routineBy_at h
    · rfl
    · exact varBy_at fun init declared t hinit htype => h _ _ (.moduleInit hinit htype)
  · rw [← itemBy_check]
    exact hitem

/-- The check of a piece runs the checks of its parts in the states in which they are visited and in
no other: what is done with a part elsewhere makes no difference. -/
theorem Task.checkBy_at {task : Task}
    (h : ∀ part t, Visits env task s part t → parts part env t = part.check env t) :
    task.checkBy parts env s = task.check env s := by
  rw [← Task.checkBy_check]
  cases task with
  | expr expr use => exact exprBy_at h
  | args args params =>
      cases args with
      | nil => rfl
      | cons arg args =>
          cases params with
          | nil =>
              exact bind_at (attempt_at (h _ _ .surplusArg)) fun _ _ harg =>
                h _ _ (.surplusArgs harg)
          | cons param params =>
              exact bind_at (attempt_at (h _ _ .firstArg)) fun _ _ hfound =>
                bind_at rfl fun _ _ hpass => h _ _ (.otherArgs ((bind_of_run hfound).trans hpass))
  | looseArgs args =>
      cases args with
      | nil => rfl
      | cons arg args =>
          exact bind_at (attempt_at (h _ _ .firstLooseArg)) fun _ _ harg => h _ _ (.otherLooseArgs harg)
  | inits owner fields inits seen => exact initsBy_at h
  | place place => exact placeBy_at h
  | stmt stmt => exact stmtBy_at h
  | stmts stmts =>
      cases stmts with
      | nil => rfl
      | cons stmt stmts =>
          exact bind_at (reporting_at (h _ _ .firstStmt)) fun _ _ hstmt => h _ _ (.otherStmts hstmt)
  | arms subject arms => exact armsBy_at h
  | items items => exact itemsBy_at h

end Asked

end Custody.Check
