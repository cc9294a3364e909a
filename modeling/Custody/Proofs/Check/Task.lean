import Custody.Analysis
import Custody.Proofs.Check.Access

/-! The pieces of a program that are checked one by one. Checking a piece leads to checking its parts,
each in the state that the steps before it have left. -/

namespace Custody.Check

/-- A piece of a program, with what its check is told about it. -/
inductive Task where
  | expr (expr : Expr) (use : Use)
  | args (args : List Expr) (params : List Ty)
  | looseArgs (args : List Expr)
  | inits (owner : Ty) (fields : List (String × Ty)) (inits : List (FieldInit Expr))
      (seen : List String)
  | place (place : Expr)
  | stmt (stmt : Stmt)
  | stmts (stmts : List Stmt)
  | arms (subject : Ty) (arms : List (Arm Stmt))
  | items (items : List LinkedItem)

/-- `Visits env task s part t`: checking `task` in the state `s` leads to checking `part` in the
state `t`. A step that cuts the check short leads nowhere. -/
inductive Visits (env : Env) : Task → State → Task → State → Prop
  -- expressions
  | inner {span inner use s} :
      Visits env (.expr (.paren span inner) use) s (.expr inner use) s
  | left {span left op right use s} :
      Visits env (.expr (.binary span left op right) use) s (.expr left .read) s
  | right {span left op right use s ty t} (hleft : checkExpr left .read env s = (.ok ty, t)) :
      Visits env (.expr (.binary span left op right) use) s (.expr right .read) t
  | operand {span op operand use s} :
      Visits env (.expr (.unary span op operand) use) s (.expr operand .read) s
  | callee {span callee args use s t} (hcallee : rejectTypeCallee callee env s = (.ok (), t)) :
      Visits env (.expr (.call span callee args) use) s (.expr callee .read) t
  | args {span callee args use s ty params result t u}
      (hcallee : (do
        rejectTypeCallee callee
        checkExpr callee .read) env s = (.ok ty, t))
      (hty : ty.strip = .routine params result)
      (harity : require (params.length == args.length)
        (.arityMismatch callee.spelled params.length args.length) span env t = (.ok (), u)) :
      Visits env (.expr (.call span callee args) use) s (.args args params) u
  | looseArgs {span callee args use s ty t}
      (hcallee : (do
        rejectTypeCallee callee
        checkExpr callee .read) env s = (.ok ty, t))
      (hty : ty.strip = .unknown) :
      Visits env (.expr (.call span callee args) use) s (.looseArgs args) t
  | object {span object property use s t} (hmodule : namedModule object env s = (.ok none, t)) :
      Visits env (.expr (.member span object property) use) s (.expr object .read) t
  | indexed {span object position use s} :
      Visits env (.expr (.index span object position) use) s (.expr object .read) s
  | position {span object position use s ty t}
      (hobject : checkExpr object .read env s = (.ok ty, t)) :
      Visits env (.expr (.index span object position) use) s (.expr position .read) t
  | inits {span type inits use s symbol fields t}
      (hlookup : lookup type.name type.span env s = (.ok symbol, t))
      (hfields : symbol.fields? = some fields) :
      Visits env (.expr (.construct span type inits) use) s
        (.inits symbol.ty fields inits []) t
  | converted {span operand target use s} :
      Visits env (.expr (.convert span operand target) use) s (.expr operand .read) s
  | addressOf {span type arg use s t} (hmode : requireUnsafe .addressOf span env s = (.ok (), t))
      (hname : arg.asIdent.isNone = false) :
      Visits env (.expr (.raw span .addressOf type [arg]) use) s (.expr arg .read) t
  | readAddress {span type address use s target t}
      (htype : (do
        requireUnsafe .readAs span
        rawType .readAs type span) env s = (.ok target, t)) :
      Visits env (.expr (.raw span .readAs type [address]) use) s (.expr address .read) t
  | writeAddress {span type address value use s target t}
      (htype : (do
        requireUnsafe .writeAs span
        rawType .writeAs type span) env s = (.ok target, t)) :
      Visits env (.expr (.raw span .writeAs type [address, value]) use) s (.expr address .read) t
  | written {span type address value use s t}
      (haddress : (do
        requireUnsafe .writeAs span
        let _ ← rawType .writeAs type span
        let ty ← checkExpr address .read
        expectAddress ty address.span) env s = (.ok (), t)) :
      Visits env (.expr (.raw span .writeAs type [address, value]) use) s
        (.expr value (.argument false)) t
  | underAccess {span kind source token body use s opened t}
      (hopen : openAccess span kind source token env s = (.ok opened, t)) :
      Visits env (.expr (.access span kind source token body) use) s
        (.expr body (.store s.depth)) t
  -- arguments and fields
  | surplusArg {arg args s} : Visits env (.args (arg :: args) []) s (.expr arg .read) s
  | surplusArgs {arg args s found t}
      (harg : attempt (checkExpr arg .read) env s = (.ok found, t)) :
      Visits env (.args (arg :: args) []) s (.args args []) t
  | firstArg {arg args param params s} :
      Visits env (.args (arg :: args) (param :: params)) s
        (.expr arg (.argument param.isToken)) s
  | otherArgs {arg args param params s t}
      (harg : (do
        let found ← attempt (checkExpr arg (.argument param.isToken))
        passArgument param arg found) env s = (.ok (), t)) :
      Visits env (.args (arg :: args) (param :: params)) s (.args args params) t
  | firstLooseArg {arg args s} :
      Visits env (.looseArgs (arg :: args)) s (.expr arg (.argument false)) s
  | otherLooseArgs {arg args s found t}
      (harg : attempt (checkExpr arg (.argument false)) env s = (.ok found, t)) :
      Visits env (.looseArgs (arg :: args)) s (.looseArgs args) t
  | firstInit {owner fields name value inits seen s} :
      Visits env (.inits owner fields (⟨name, value⟩ :: inits) seen) s
        (.expr value (.argument false)) s
  | initsAfterRepeated {owner fields name value inits seen s t}
      (hinit : (do
        let _ ← attempt (checkExpr value (.argument false))
        report (.duplicateDeclaration name.name) name.span) env s = (.ok (), t))
      (hseen : name.name ∈ seen) :
      Visits env (.inits owner fields (⟨name, value⟩ :: inits) seen) s
        (.inits owner fields inits seen) t
  | otherInits {owner fields name value inits seen s t}
      (hinit : (do
        let found ← attempt (checkExpr value (.argument false))
        initField owner fields name value found) env s = (.ok (), t))
      (hseen : name.name ∉ seen) :
      Visits env (.inits owner fields (⟨name, value⟩ :: inits) seen) s
        (.inits owner fields inits (seen ++ [name.name])) t
  -- places
  | innerPlace {span inner s} : Visits env (.place (.paren span inner)) s (.place inner) s
  | objectPlace {span object property s} :
      Visits env (.place (.member span object property)) s (.place object) s
  | indexedPlace {span object position s} :
      Visits env (.place (.index span object position)) s (.place object) s
  | placePosition {span object position s place t}
      (hplace : checkPlace object env s = (.ok place, t)) :
      Visits env (.place (.index span object position)) s (.expr position .read) t
  -- statements
  | value {span value s} : Visits env (.stmt (.expr span value)) s (.expr value .read) s
  | init {span decl init s declared t} (hinit : decl.init = some init)
      (htype : declaredType decl.type env s = (.ok declared, t)) :
      Visits env (.stmt (.var span decl)) s (.expr init (.store t.depth)) t
  | target {span target value s} (hplace : ∀ span name, target ≠ .ident span name) :
      Visits env (.stmt (.assign span target value)) s (.place target) s
  | assigned {span target value s ty depth t}
      (htarget : assignTarget target env s = (.ok (ty, depth), t)) :
      Visits env (.stmt (.assign span target value)) s (.expr value (.store depth)) t
  | given {span value s expected} (hresult : s.result = some expected) :
      Visits env (.stmt (.give span (some value))) s (.expr value .give) s
  | branchCondition {span condition body otherwise s} :
      Visits env (.stmt (.branch span condition body otherwise)) s (.expr condition .read) s
  | branchBody {span condition body otherwise s t}
      (hcondition : reporting (checkCondition condition) env s = (.ok (), t)) :
      Visits env (.stmt (.branch span condition body otherwise)) s (.stmts body) t.openScope
  | otherwise {span condition body stmt s t}
      (hbody : (do
        reporting (checkCondition condition)
        withScope (checkStmts body)) env s = (.ok (), t)) :
      Visits env (.stmt (.branch span condition body (some stmt))) s (.stmt stmt) t
  | loopCondition {span condition body s} :
      Visits env (.stmt (.whileLoop span condition body)) s (.expr condition .read) s
  | loopBody {span condition body s t}
      (hcondition : reporting (checkCondition condition) env s = (.ok (), t)) :
      Visits env (.stmt (.whileLoop span condition body)) s (.stmts body)
        { t with loops := t.loops + 1 }.openScope
  | iterated {span binding items body s} :
      Visits env (.stmt (.forLoop span binding items body)) s (.expr items .read) s
  | forBody {span binding items body s ty element t u}
      (hitems : checkExpr items .read env s = (.ok ty, t)) (hty : ty.element? = some element)
      (hbinding : reporting (declare (Symbol.var binding.name element false binding.span)) env
        t.openScope = (.ok (), u)) :
      Visits env (.stmt (.forLoop span binding items body)) s (.stmts body)
        { u with loops := u.loops + 1 }
  | subject {span subject arms s} :
      Visits env (.stmt (.choose span subject arms)) s (.expr subject .read) s
  | arms {span subject arms s ty t} (hsubject : checkExpr subject .read env s = (.ok ty, t)) :
      Visits env (.stmt (.choose span subject arms)) s (.arms ty arms) t
  | block {span body s} : Visits env (.stmt (.block span body)) s (.stmts body) s.openScope
  | danger {span body s t} (hlanguage : requireUnsafeBlocks .dangerBlock span env s = (.ok (), t)) :
      Visits env (.stmt (.danger span body)) s (.stmts body) (t.enterMode .danger).openScope
  | mayhem {span body s t} (hlanguage : requireUnsafeBlocks .mayhemBlock span env s = (.ok (), t)) :
      Visits env (.stmt (.mayhem span body)) s (.stmts body) (t.enterMode .mayhem).openScope
  | accessBody {span kind source token body s opened t}
      (hopen : openAccess span kind source token env s = (.ok opened, t)) :
      Visits env (.stmt (.access span kind source token body)) s (.stmts body) t
  | raised {span value s} :
      Visits env (.stmt (.raise span value)) s (.expr value (.argument false)) s
  -- blocks
  | firstStmt {stmt stmts s} : Visits env (.stmts (stmt :: stmts)) s (.stmt stmt) s
  | otherStmts {stmt stmts s t} (hstmt : reporting (checkStmt stmt) env s = (.ok (), t)) :
      Visits env (.stmts (stmt :: stmts)) s (.stmts stmts) t
  | guard {subject pattern condition body arms s t}
      (hpattern : checkPattern pattern subject env s.openScope = (.ok (), t)) :
      Visits env (.arms subject (⟨pattern, some condition, body⟩ :: arms)) s
        (.expr condition .read) (t.enterMode .whenGuard)
  | armBody {subject pattern guard body arms s t}
      (hguard : (do
        checkPattern pattern subject
        checkGuard guard) env s.openScope = (.ok (), t)) :
      Visits env (.arms subject (⟨pattern, guard, body⟩ :: arms)) s (.stmts body) t
  | otherArms {subject pattern guard body arms s t}
      (harm : withScope (do
        checkPattern pattern subject
        checkGuard guard
        checkStmts body) env s = (.ok (), t)) :
      Visits env (.arms subject (⟨pattern, guard, body⟩ :: arms)) s (.arms subject arms) t
  -- programs
  | routineBody {routine items body s params result t u} (hbody : routine.body = some body)
      (hroutine : declareRoutine routine env s = (.ok (params, result), t))
      (hparams : declareParams (routine.params.zip params) env
        { t with result := some result, loops := 0 }.openScope = (.ok (), u)) :
      Visits env (.items (.decl (.routine routine) :: items)) s (.stmts body)
        (if routine.usurping then u.enterMode .usurping else u)
  | moduleInit {decl items init s declared t} (hinit : decl.init = some init)
      (htype : declaredType decl.type env s = (.ok declared, t)) :
      Visits env (.items (.decl (.var decl) :: items)) s (.expr init (.store t.depth)) t
  | otherItems {item items s t} (hitem : reporting (checkItem item) env s = (.ok (), t)) :
      Visits env (.items (item :: items)) s (.items items) t

end Custody.Check
