import Custody.Check.Expr
import Custody.Proofs.Check.Access

/-! What checking an expression does to the state. It reports, it moves variables whose use has been
allowed, and it opens accesses and closes them again. A frame that is closed under these steps holds
between the states before and after every expression. -/

namespace Custody.Check

variable {env : Env} {R : Nat → State → State → Prop} {s t : State}

/-- A frame for the steps that expressions are checked with. -/
structure ExprFrame (env : Env) (R : Nat → State → State → Prop) : Prop extends Frame R where
  move : ∀ {s name symbol use}, env.language.moves = true → s.table.find? name = some symbol →
    s.table.isMovable symbol = true → s.checkUse symbol use = .ok () →
    R 0 s { s with table := s.table.update name (Symbol.setState .moved) }
  access : ∀ {n kind source token s opened t u}, Opened kind source token s opened t → R n t u →
    R 0 s ((endAccess opened u).closeScope (s.depth + 1))

/-- Two frames together are a frame. -/
theorem ExprFrame.and {Q : Nat → State → State → Prop} (frame : ExprFrame env R)
    (other : ExprFrame env Q) : ExprFrame env fun n s t => R n s t ∧ Q n s t where
  refl s := ⟨frame.refl s, other.refl s⟩
  trans hst htu := ⟨frame.trans hst.1 htu.1, other.trans hst.2 htu.2⟩
  weaken hmn hst := ⟨frame.weaken hmn hst.1, other.weaken hmn hst.2⟩
  report hfault := ⟨frame.report hfault, other.report hfault⟩
  move hmoves hfind hmovable hallowed :=
    ⟨frame.move hmoves hfind hmovable hallowed, other.move hmoves hfind hmovable hallowed⟩
  access hopened htu := ⟨frame.access hopened htu.1, other.access hopened htu.2⟩

/-! ### Names -/

/-- If `value` is the name of a variable, the rules allow some use of that variable. -/
def Usable (value : Expr) (s : State) : Prop :=
  ∀ name symbol, value.asIdent = some name → s.table.find? name = some symbol →
    symbol.isVar = true → ∃ use, s.checkUse symbol use = .ok ()

theorem judge_eq_ok {α : Type} {verdict : Except Fault α} {span : Span} {a : α}
    (h : judge verdict span env s = (.ok a, t)) : verdict = .ok a ∧ t = s := by
  cases verdict with
  | error fault => cases h
  | ok b =>
      cases h
      exact ⟨rfl, rfl⟩

theorem lookup_eq_ok {name : String} {span : Span} {symbol : Symbol}
    (h : lookup name span env s = (.ok symbol, t)) : s.table.find? name = some symbol ∧ t = s := by
  simp only [lookup, rule] at h
  cases hfind : s.table.find? name with
  | none =>
      rw [hfind] at h
      cases h
  | some found =>
      rw [hfind] at h
      cases h
      exact ⟨rfl, rfl⟩

/-- The check of a sequence succeeds if its parts do, one after the other. -/
theorem bind_eq_ok {α β : Type} {check : Check α} {next : α → Check β} {b : β}
    (h : (check >>= next) env s = (.ok b, t)) :
    ∃ a u, check env s = (.ok a, u) ∧ next a env u = (.ok b, t) := by
  rw [bind_apply] at h
  rcases hrun : check env s with ⟨cause | a, u⟩
  · rw [hrun] at h
    cases h
  · rw [hrun] at h
    exact ⟨a, u, rfl, h⟩

theorem checkIdent_eq_ok {name : String} {use : Use} {span : Span} {ty : Ty}
    (h : checkIdent name use span env s = (.ok ty, t)) :
    t = s ∧ ∃ symbol, s.table.find? name = some symbol ∧ symbol.ty = ty ∧
      (symbol.isVar = true → s.checkUse symbol use = .ok ()) := by
  unfold checkIdent at h
  obtain ⟨symbol, u, hlookup, hkind⟩ := bind_eq_ok h
  obtain ⟨hfind, rfl⟩ := lookup_eq_ok hlookup
  rcases symbol with ⟨symbolName, kind, symbolTy, visibility, depth, place⟩
  cases kind with
  | var mutable state =>
      obtain ⟨_, left, huse, hrest⟩ := bind_eq_ok hkind
      obtain ⟨hallowed, rfl⟩ := judge_eq_ok huse
      cases hrest
      exact ⟨rfl, _, hfind, rfl, fun _ => hallowed⟩
  | routine usurping =>
      cases hkind
      exact ⟨rfl, _, hfind, rfl, fun hvar => by cases hvar⟩
  | basic => cases hkind
  | composite semantics fields params => cases hkind
  | module path => cases hkind

/-- The name of a variable may be used if and only if the rules allow it. -/
theorem checkIdent_of_isVar {name : String} {symbol : Symbol} (use : Use) (span : Span)
    (hfind : s.table.find? name = some symbol) (hvar : symbol.isVar = true) :
    checkIdent name use span env s =
      (match s.checkUse symbol use with
        | .ok () => .ok symbol.ty
        | .error fault => .error ⟨fault, span⟩, s) := by
  have hlookup : lookup name span env s = (.ok symbol, s) := by
    simp only [lookup, rule, hfind]
  rcases symbol with ⟨symbolName, kind, ty, visibility, depth, place⟩
  cases kind with
  | var mutable state =>
      simp only [checkIdent, bind_apply, hlookup, useSymbol, Check.state]
      cases s.checkUse _ use <;> rfl
  | _ => cases hvar

/-- Parentheses around a name do not matter. -/
theorem checkExpr_of_asIdent (use : Use) {name : String} : ∀ {value : Expr},
    value.asIdent = some name → ∃ span, checkExpr value use = checkIdent name use span
  | .ident span _, h => by
      cases h
      exact ⟨span, by rw [checkExpr]⟩
  | .paren _ inner, h => by
      rw [checkExpr]
      exact checkExpr_of_asIdent use (show inner.asIdent = some name from h)

/-- A name that has been used leaves the state as it is. -/
theorem usable_of_checkExpr {value : Expr} {use : Use} {ty : Ty}
    (h : checkExpr value use env s = (.ok ty, t)) : Usable value t := by
  intro name symbol hname hfind hvar
  obtain ⟨span, hcheck⟩ := checkExpr_of_asIdent use hname
  rw [hcheck] at h
  obtain ⟨rfl, found, hfound, -, hallowed⟩ := checkIdent_eq_ok h
  rw [hfind] at hfound
  cases hfound
  exact ⟨use, hallowed hvar⟩

theorem usable_of_attempt {value : Expr} {use : Use} {found : Option Ty}
    (h : attempt (checkExpr value use) env s = (.ok found, t)) (hfound : found.isSome = true) :
    Usable value t := by
  unfold attempt at h
  split at h
  · rename_i hrun
    cases h
    exact usable_of_checkExpr hrun
  · cases h
    cases hfound

/-! ### Steps -/

theorem takeOver_apply (value : Expr) (env : Env) (s : State) :
    takeOver value env s = (.ok (), s) ∨
    ∃ name symbol, value.asIdent = some name ∧ s.table.find? name = some symbol ∧
      env.language.moves = true ∧ s.table.isMovable symbol = true ∧
      takeOver value env s =
        (.ok (), { s with table := s.table.update name (Symbol.setState .moved) }) := by
  unfold takeOver
  split
  · exact .inl rfl
  · rename_i name hname
    split
    · exact .inl rfl
    · rename_i symbol hfind
      split
      · rename_i hmoves
        rw [Bool.and_eq_true] at hmoves
        exact .inr ⟨name, symbol, hname, hfind, hmoves.1, hmoves.2,
          setState_of_find? hfind .moved value.span env⟩
      · exact .inl rfl

theorem takeOver_keeps (frame : ExprFrame env R) {value : Expr} (husable : Usable value s) :
    Keeps env (R 0) (takeOver value) s := by
  rcases takeOver_apply value env s with hrun | ⟨name, symbol, hname, hfind, hmoves, hmovable, hrun⟩
  · refine ⟨?_, fun _ h => by rw [hrun] at h; cases h⟩
    rw [hrun]
    exact frame.refl s
  · have hvar : symbol.isVar = true := by
      unfold Table.isMovable at hmovable
      simp only [Bool.and_eq_true] at hmovable
      exact hmovable.1.1
    obtain ⟨use, hallowed⟩ := husable name symbol hname hfind hvar
    refine ⟨?_, fun _ h => by rw [hrun] at h; cases h⟩
    rw [hrun]
    exact frame.move hmoves hfind hmovable hallowed

theorem rejectTypeCallee_keeps (frame : Frame R) (callee : Expr) :
    Keeps env (R 0) (rejectTypeCallee callee) s := by
  refine .state ?_
  split
  · split
    · exact .fail frame rfl
    · exact .pure frame _
  · exact .pure frame _

theorem checkIdent_keeps (frame : Frame R) (name : String) (use : Use) (span : Span) :
    Keeps env (R 0) (checkIdent name use span) s := by
  refine .seq frame (.lookup frame name span) fun symbol _ _ => ?_
  split
  · exact .seq frame (.useSymbol frame symbol use span) fun _ _ _ => .pure frame _
  · exact .pure frame _
  · exact .fail frame rfl
  · exact .fail frame rfl
  · exact .fail frame rfl

theorem namedModule_keeps (frame : Frame R) (object : Expr) :
    Keeps env (R 0) (namedModule object) s :=
  .state (.pure frame _)

theorem checkQualified_keeps (frame : Frame R) (qualifier path : String) (property : Ident) :
    Keeps env (R 0) (checkQualified qualifier path property) s := by
  refine .seq frame (.moduleMember frame path property) fun symbol _ _ => ?_
  split
  · exact .pure frame _
  · exact .pure frame _
  · exact .fail frame rfl

theorem checkLend_keeps (frame : Frame R) (param : Ty) (arg : Expr) :
    Keeps env (R 0) (checkLend param arg) s := by
  refine .state ?_
  split
  · exact .pure frame _
  · split
    · exact .pure frame _
    · exact .require frame rfl

theorem passArgument_keeps (frame : ExprFrame env R) {param : Ty} {arg : Expr} {found : Option Ty}
    (husable : found.isSome → Usable arg s) : Keeps env (R 0) (passArgument param arg found) s := by
  unfold passArgument
  split
  · exact .pure frame.toFrame _
  · split
    · exact .report frame.toFrame rfl
    · split
      · exact checkLend_keeps frame.toFrame param arg
      · exact takeOver_keeps frame (husable rfl)

theorem initField_keeps (frame : ExprFrame env R) {owner : Ty} {fields : List (String × Ty)}
    {name : Ident} {value : Expr} {found : Option Ty} (husable : found.isSome → Usable value s) :
    Keeps env (R 0) (initField owner fields name value found) s := by
  unfold initField
  split
  · exact .report frame.toFrame rfl
  · split
    · exact .pure frame.toFrame _
    · split
      · exact .report frame.toFrame rfl
      · exact takeOver_keeps frame (husable rfl)

theorem reportMissing_keeps (frame : Frame R) (type : String) (seen : List String) (span : Span)
    (fields : List (String × Ty)) : Keeps env (R 0) (reportMissing type seen span fields) s := by
  induction fields generalizing s with
  | nil => exact .pure frame _
  | cons field fields ih =>
      rw [reportMissing]
      exact .seq frame (.require frame rfl) fun _ _ _ => ih

theorem requireUnsafe_keeps (frame : Frame R) (op : RawOp) (span : Span) :
    Keeps env (R 0) (requireUnsafe op span) s :=
  .state (.require frame rfl)

theorem rawType_keeps (frame : Frame R) (op : RawOp) (type : Option TypeExpr) (span : Span) :
    Keeps env (R 0) (rawType op type span) s := by
  unfold rawType
  split
  · exact .rule frame fun _ h => Table.resolve_error h
  · exact .fail frame rfl

theorem expectAddress_keeps (frame : Frame R) (ty : Ty) (span : Span) :
    Keeps env (R 0) (expectAddress ty span) s := by
  unfold expectAddress
  split
  · exact .pure frame _
  · exact .fail frame rfl

theorem withAccess_keeps {α : Type} (frame : ExprFrame env R) {n : Nat} {span : Span}
    {kind : Access} {source token : Ident} {check : Check α}
    (h : ∀ opened t, openAccess span kind source token env s = (.ok opened, t) →
      Keeps env (R n) check t) :
    Keeps env (R 0) (withAccess span kind source token check) s := by
  obtain ⟨opened, t, hopen, hopened⟩ := openAccess_opens span kind source token env s
  have hcheck := h opened t hopen
  constructor
  · rw [withAccess_apply hopen]
    exact frame.access hopened hcheck.left
  · rw [withAccess_apply hopen]
    exact hcheck.fault

/-- The arguments of a call, once the type of the callee is known. -/
theorem passArgs_keeps (frame : Frame R) {args : List Expr}
    (hargs : ∀ params s, Keeps env (R 0) (checkArgs args params) s)
    (hloose : ∀ s, Keeps env (R 0) (checkLooseArgs args) s) (ty : Ty) (callee : Expr) (span : Span)
    (s : State) :
    Keeps env (R 0) (match ty.strip with
      | .routine params result => do
          require (params.length == args.length)
            (.arityMismatch callee.spelled params.length args.length) span
          checkArgs args params
          return result
      | .unknown => do
          checkLooseArgs args
          return .unknown
      | _ => fail (.notCallable callee.spelled) callee.span) s := by
  split
  · refine .seq frame (.require frame rfl) fun _ t _ => ?_
    exact .seq frame (hargs _ t) fun _ _ _ => .pure frame _
  · exact .seq frame (hloose s) fun _ _ _ => .pure frame _
  · exact .fail frame rfl

/-! ### Expressions -/

section
variable (frame : ExprFrame env R)
include frame

mutual
theorem checkExpr_keeps : ∀ (expr : Expr) (use : Use) (s : State),
    Keeps env (R 0) (checkExpr expr use) s
  | .literal _ value, use, s => by
      rw [checkExpr]
      exact .pure frame.toFrame _
  | .ident span name, use, s => by
      rw [checkExpr]
      exact checkIdent_keeps frame.toFrame name use span
  | .paren _ inner, use, s => by
      rw [checkExpr]
      exact checkExpr_keeps inner use s
  | .binary span left op right, use, s => by
      rw [checkExpr]
      refine .seq frame.toFrame (checkExpr_keeps left .read s) fun _ t _ => ?_
      refine .seq frame.toFrame (checkExpr_keeps right .read t) fun _ _ _ => ?_
      exact .judge frame.toFrame fun _ h => Ty.binary_error h
  | .unary span op operand, use, s => by
      rw [checkExpr]
      refine .seq frame.toFrame (checkExpr_keeps operand .read s) fun _ _ _ => ?_
      exact .judge frame.toFrame fun _ h => Ty.unary_error h
  | .call span callee args, use, s => by
      rw [checkExpr]
      refine .seq frame.toFrame (rejectTypeCallee_keeps frame.toFrame callee) fun _ t _ => ?_
      refine .seq frame.toFrame (checkExpr_keeps callee .read t) fun ty u _ => ?_
      exact passArgs_keeps frame.toFrame (checkArgs_keeps args) (checkLooseArgs_keeps args) ty callee
        span u
  | .member _ object property, use, s => by
      rw [checkExpr]
      refine .seq frame.toFrame (namedModule_keeps frame.toFrame object) fun _ t _ => ?_
      split
      · exact checkQualified_keeps frame.toFrame _ _ property
      · refine .seq frame.toFrame (checkExpr_keeps object .read t) fun _ _ _ => ?_
        exact .memberType frame.toFrame _ property
  | .index span object position, use, s => by
      rw [checkExpr]
      refine .seq frame.toFrame (checkExpr_keeps object .read s) fun _ t _ => ?_
      refine .seq frame.toFrame (checkExpr_keeps position .read t) fun _ _ _ => ?_
      exact .elementType frame.toFrame _ _ _ span
  | .construct span type inits, use, s => by
      rw [checkExpr]
      refine .seq frame.toFrame (.lookup frame.toFrame type.name type.span) fun symbol t _ => ?_
      split
      · exact .fail frame.toFrame rfl
      · refine .seq frame.toFrame (checkInits_keeps _ _ inits [] t) fun _ _ _ => ?_
        refine .seq frame.toFrame (reportMissing_keeps frame.toFrame _ _ _ _) fun _ _ _ => ?_
        exact .pure frame.toFrame _
  | .convert span operand target, use, s => by
      rw [checkExpr]
      refine .seq frame.toFrame (checkExpr_keeps operand .read s) fun _ _ _ => ?_
      refine .seq frame.toFrame (.rule frame.toFrame fun _ h => Table.resolve_error h) fun _ _ _ => ?_
      refine .seq frame.toFrame (.judge frame.toFrame fun _ h => Ty.convert_error h) fun _ _ _ => ?_
      exact .pure frame.toFrame _
  | .raw span .addressOf type [arg], use, s => by
      rw [checkExpr]
      refine .seq frame.toFrame (requireUnsafe_keeps frame.toFrame _ span) fun _ t _ => ?_
      split
      · exact .fail frame.toFrame rfl
      · refine .seq frame.toFrame (checkExpr_keeps arg .read t) fun _ _ _ => ?_
        exact .pure frame.toFrame _
  | .raw span .readAs type [address], use, s => by
      rw [checkExpr]
      refine .seq frame.toFrame (requireUnsafe_keeps frame.toFrame _ span) fun _ _ _ => ?_
      refine .seq frame.toFrame (rawType_keeps frame.toFrame _ type span) fun _ t _ => ?_
      refine .seq frame.toFrame (checkExpr_keeps address .read t) fun _ _ _ => ?_
      refine .seq frame.toFrame (expectAddress_keeps frame.toFrame _ _) fun _ _ _ => ?_
      exact .pure frame.toFrame _
  | .raw span .writeAs type [address, value], use, s => by
      rw [checkExpr]
      refine .seq frame.toFrame (requireUnsafe_keeps frame.toFrame _ span) fun _ _ _ => ?_
      refine .seq frame.toFrame (rawType_keeps frame.toFrame _ type span) fun _ t _ => ?_
      refine .seq frame.toFrame (checkExpr_keeps address .read t) fun _ _ _ => ?_
      refine .seq frame.toFrame (expectAddress_keeps frame.toFrame _ _) fun _ u _ => ?_
      refine .seq frame.toFrame (checkExpr_keeps value (.argument false) u) fun _ _ _ => ?_
      refine .seq frame.toFrame (.judge frame.toFrame fun _ h => Ty.expect_error h) fun _ _ _ => ?_
      exact .pure frame.toFrame _
  -- the wrong number of operands
  | .raw span .addressOf _ [], _, _ | .raw span .addressOf _ (_ :: _ :: _), _, _
  | .raw span .readAs _ [], _, _ | .raw span .readAs _ (_ :: _ :: _), _, _
  | .raw span .writeAs _ [], _, _ | .raw span .writeAs _ [_], _, _
  | .raw span .writeAs _ (_ :: _ :: _ :: _), _, _ => by
      unfold checkExpr
      exact .seq frame.toFrame (requireUnsafe_keeps frame.toFrame _ span) fun _ _ _ =>
        .fail frame.toFrame rfl
  | .access span kind source token body, use, s => by
      rw [checkExpr]
      exact .depth (withAccess_keeps frame fun _ t _ => checkExpr_keeps body (.store s.depth) t)

theorem checkArgs_keeps : ∀ (args : List Expr) (params : List Ty) (s : State),
    Keeps env (R 0) (checkArgs args params) s
  | [], _, _ => by
      rw [checkArgs]
      exact .pure frame.toFrame _
  | arg :: args, [], s => by
      rw [checkArgs]
      refine .seq frame.toFrame (.attempt frame.toFrame (checkExpr_keeps arg .read s)) fun _ t _ => ?_
      exact checkArgs_keeps args [] t
  | arg :: args, param :: params, s => by
      rw [checkArgs]
      refine .seq frame.toFrame (.attempt frame.toFrame (checkExpr_keeps arg _ s)) fun _ _ hrun => ?_
      refine .seq frame.toFrame (passArgument_keeps frame (usable_of_attempt hrun)) fun _ t _ => ?_
      exact checkArgs_keeps args params t

theorem checkLooseArgs_keeps : ∀ (args : List Expr) (s : State),
    Keeps env (R 0) (checkLooseArgs args) s
  | [], _ => by
      rw [checkLooseArgs]
      exact .pure frame.toFrame _
  | arg :: args, s => by
      rw [checkLooseArgs]
      refine .seq frame.toFrame (.attempt frame.toFrame (checkExpr_keeps arg _ s)) fun _ t _ => ?_
      exact checkLooseArgs_keeps args t

theorem checkInits_keeps (owner : Ty) (fields : List (String × Ty)) :
    ∀ (inits : List (FieldInit Expr)) (seen : List String) (s : State),
      Keeps env (R 0) (checkInits owner fields inits seen) s
  | [], _, _ => by
      rw [checkInits]
      exact .pure frame.toFrame _
  | ⟨name, value⟩ :: inits, seen, s => by
      rw [checkInits]
      refine .seq frame.toFrame (.attempt frame.toFrame (checkExpr_keeps value _ s))
        fun _ _ hrun => ?_
      split
      · refine .seq frame.toFrame (.report frame.toFrame rfl) fun _ t _ => ?_
        exact checkInits_keeps owner fields inits seen t
      · refine .seq frame.toFrame (initField_keeps frame (usable_of_attempt hrun)) fun _ t _ => ?_
        exact checkInits_keeps owner fields inits _ t
end

end

end Custody.Check
