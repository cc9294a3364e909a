import Custody.Proofs.Check.Passes
import Custody.Proofs.Check.Visit
import Custody.Proofs.Ty.Bare

/-! What is stored in a token binding. A declaration that passes gives a token binding only a token, or
a value of unknown type. An assignment asks only whether the type of its target accepts the value, and
a token type accepts every plain value that the type under the token accepts, as it does for the time
of a call. So a plain value can be assigned to a token binding. -/

namespace Custody

theorem Language.isToken_settle {language : Language} {t : Ty}
    (h : (language.settle t).isToken = true) : t.isToken = true := by
  cases t with
  | intLiteral => cases language <;> cases h
  | floatLiteral => cases language <;> cases h
  | _ => exact h

namespace Check

variable {env : Env} {s t : State} {init target value : Expr} {declared found ty : Ty}

/-! ### Declarations -/

/-- A token binding is set to a token. -/
theorem token_of_bindDeclared {bound : Ty × Bool}
    (h : Passes env (bindDeclared declared init found) s bound t) (htoken : bound.1.isToken = true) :
    found.isToken = true ∨ found = .unknown := by
  rw [bindDeclared, passes_state] at h
  split at h
  · exact absurd h (not_passes_report_bind rfl fun _ => .pure frame_growing _)
  split at h
  · exact absurd h (not_passes_report_bind rfl fun _ => .pure frame_growing _)
  rename_i hrule
  split at h
  · obtain ⟨rfl, -⟩ := passes_pure.1 h
    exact .inl htoken
  · obtain ⟨rfl, -⟩ := passes_pure.1 h
    by_cases hfound : found.isToken = true
    · exact .inl hfound
    · refine .inr (Decidable.not_not.1 fun hknown => hrule ?_)
      simp [show declared.isToken = true from htoken, hfound, hknown]

/-- A variable that is set to a value gets a token type only from a token. -/
theorem token_of_boundType {declared : Option Ty}
    (h : Passes env (boundType init declared (some found)) s ty t) (htoken : ty.isToken = true) :
    found.isToken = true ∨ found = .unknown := by
  cases declared with
  | none =>
      obtain ⟨_, _, hlanguage, htake⟩ := bind_eq_ok h.1
      obtain ⟨_, _, -, hsettle⟩ := bind_eq_ok htake
      cases hlanguage
      cases hsettle
      exact .inl (Language.isToken_settle htoken)
  | some declared =>
      obtain ⟨⟨bound, owned⟩, u, hbound, hrest⟩ := bind_eq_ok h.1
      cases owned with
      | false =>
          cases hrest
          exact token_of_bindDeclared ⟨hbound, h.2⟩ htoken
      | true =>
          obtain ⟨_, _, -, hpure⟩ := bind_eq_ok hrest
          cases hpure
          obtain rfl := bindDeclared_owned hbound
          exact token_of_bindDeclared ⟨hbound, rfl⟩ htoken

theorem passes_initType {declared : Option Ty} :
    Passes env (initType declared init) s ty t ↔
      ∃ found u, Passes env (checkExpr init (.store s.depth)) s found u ∧
        Passes env (boundType init declared (some found)) u ty t := by
  have hinit : Keeps env (Growing 0) (checkExpr init (.store s.depth)) s :=
    checkExpr_keeps exprFrame_growing init (.store s.depth) s
  rw [initType_eq, passes_depth, passes_bind (.attempt frame_growing hinit) fun _ _ hrun =>
    boundType_keeps exprFrame_growing declared (usable_of_attempt hrun)]
  simp only [passes_attempt hinit]
  constructor
  · rintro ⟨_, u, ⟨found, rfl, hfound⟩, hbound⟩
    exact ⟨found, u, hfound, hbound⟩
  · rintro ⟨found, u, hfound, hbound⟩
    exact ⟨some found, u, ⟨found, rfl, hfound⟩, hbound⟩

theorem passes_varType {decl : VarDecl} (hinit : decl.init = some init) :
    Passes env (varType decl) s ty t ↔
      ∃ declared u, Passes env (declaredType decl.type) s declared u ∧
        Passes env (initType declared init) u ty t := by
  have hvar : varType decl = (do
      let declared ← declaredType decl.type
      initType declared init) := by
    unfold varType
    rw [hinit]
  rw [hvar]
  exact passes_bind (declaredType_keeps frame_growing decl.type) fun declared _ _ =>
    initType_keeps exprFrame_growing declared init

/-- What is declared is found under its name. -/
theorem find?_of_declare {symbol : Symbol} (h : declare symbol env s = (.ok (), t)) :
    t.table.find? symbol.name = some { symbol with depth := s.depth } := by
  unfold declare at h
  split at h
  · rename_i key table hdeclare
    cases h
    obtain ⟨hfree, rfl⟩ := Table.declare_eq_ok hdeclare
    apply Table.find?_of_mem_current
    rw [Scope.contains_eq_isSome, Option.isSome_eq_false_iff, Option.isNone_iff_eq_none] at hfree
    unfold Scope.get? at hfree ⊢
    simp [List.find?_append, hfree, State.depth]
  · cases h

/-- A declaration that passes gives a token binding a token. -/
theorem token_of_checkVar {decl : VarDecl} (hinit : decl.init = some init)
    (h : Passes env (checkVar decl) s () t) :
    ∃ declared u found v symbol, Passes env (declaredType decl.type) s declared u ∧
      Passes env (checkExpr init (.store u.depth)) u found v ∧
      t.table.find? decl.name.name = some symbol ∧ symbol.isVar = true ∧
      (symbol.ty.isToken = true → found.isToken = true ∨ found = .unknown) := by
  unfold checkVar at h
  rw [passes_bind (varType_keeps exprFrame_growing decl) fun _ _ _ =>
    .declare stmtFrame_growing.toBlockFrame _] at h
  obtain ⟨ty, w, htype, hdeclare, -⟩ := h
  obtain ⟨declared, u, hdeclared, hinitType⟩ := (passes_varType hinit).1 htype
  obtain ⟨found, v, hfound, hbound⟩ := passes_initType.1 hinitType
  exact ⟨declared, u, found, v, _, hdeclared, hfound, find?_of_declare hdeclare, rfl,
    token_of_boundType hbound⟩

/-! ### Assignments -/

/-- Both sides of an assignment having been accepted, nothing more is reported. -/
theorem exists_passes_store (target value : Expr) (env : Env) (s : State) :
    ∃ t, Passes env (do
      takeOver value
      revive target) s () t := by
  obtain ⟨t, htake⟩ := exists_passes_takeOver value env s
  obtain ⟨u, hrevive⟩ := exists_passes_revive target env t
  exact ⟨u, htake.bind hrevive⟩

/-- An assignment passes if and only if both sides do and the type of the target accepts that of the
value, and a token for a shared value is not stored in a plain variable. -/
theorem exists_passes_checkAssign :
    (∃ t, Passes env (checkAssign target value) s () t) ↔
      ∃ place u found v, Passes env (assignTarget target) s place u ∧
        Passes env (checkExpr value (.store place.2)) u found v ∧ place.1.accepts found = true ∧
        (place.1.isToken = true ∨ v.table.isReferenceToken found = false) := by
  constructor
  · rintro ⟨t, hrun, hsame⟩
    obtain ⟨place, u, htarget, hassign⟩ := bind_eq_ok hrun
    obtain ⟨found, v, hvalue, hstore⟩ := bind_eq_ok hassign
    obtain ⟨_, w, hjudge, hrest⟩ := bind_eq_ok hstore
    obtain ⟨hexpect, rfl⟩ := judge_eq_ok hjudge
    have haccepts : place.1.accepts found = true := by
      unfold Ty.expect at hexpect
      split at hexpect
      · assumption
      · cases hexpect
    obtain ⟨_, _, hstate, hguard⟩ := bind_eq_ok hrest
    cases hstate
    split at hguard
    · cases hguard
    · rename_i hplain
      obtain ⟨t', htake, hsilent⟩ := exists_passes_store target value env w
      obtain rfl : t = t' := congrArg Prod.snd (hguard.symm.trans htake)
      obtain ⟨htargetSame, hvalueSame⟩ := (eq_iff_of_prefixes
        ((assignTarget_keeps exprFrame_growing target).related htarget)
        ((checkExpr_keeps exprFrame_growing value _ u).related hvalue)).1 (hsilent.symm.trans hsame)
      refine ⟨place, u, found, w, ⟨htarget, htargetSame⟩, ⟨hvalue, hvalueSame⟩, haccepts, ?_⟩
      rw [Bool.and_eq_true, Bool.not_eq_true', not_and] at hplain
      cases htoken : place.1.isToken with
      | true => exact .inl rfl
      | false => exact .inr (by simpa using hplain htoken)
  · rintro ⟨place, u, found, v, htarget, hvalue, haccepts, hplain⟩
    obtain ⟨t, hstore⟩ := exists_passes_store target value env v
    have hguard : (!place.1.isToken && v.table.isReferenceToken found) = false := by
      rcases hplain with htoken | hreference
      · simp [htoken]
      · simp [hreference]
    have hexpect : place.1.expect found = .ok () := by
      rw [Ty.expect, if_pos haccepts]
    refine ⟨t, htarget.bind (hvalue.bind (.bind (passes_judge.2 ⟨hexpect, rfl⟩) ?_))⟩
    rw [passes_state, hguard]
    exact hstore

/-- A declaration that passes gives a token binding only a token, or a value of unknown type. An
assignment passes if and only if both sides do, the target accepts the value, and no token for a shared
value goes to a plain variable; so to a token binding or place, a plain value is assigned if and only if
what is under the token accepts it. -/
theorem stored_in_token_binding (env : Env) (s : State) :
    (∀ span decl init t, decl.init = some init → Passes env (checkStmt (.var span decl)) s () t →
      ∃ declared u found v symbol, Passes env (declaredType decl.type) s declared u ∧
        Passes env (checkExpr init (.store u.depth)) u found v ∧
        t.table.find? decl.name.name = some symbol ∧ symbol.isVar = true ∧
        (symbol.ty.isToken = true → found.isToken = true ∨ found = .unknown)) ∧
    (∀ span target value, (∃ t, Passes env (checkStmt (.assign span target value)) s () t) ↔
      ∃ place u found v, Passes env (assignTarget target) s place u ∧
        Passes env (checkExpr value (.store place.2)) u found v ∧ place.1.accepts found = true ∧
        (place.1.isToken = true ∨ v.table.isReferenceToken found = false)) ∧
    ∀ span target value place u found v access inner,
      Passes env (assignTarget target) s place u → place.1 = .token access inner →
      Passes env (checkExpr value (.store place.2)) u found v → found.isToken = false →
      ((∃ t, Passes env (checkStmt (.assign span target value)) s () t) ↔
        inner.accepts found = true) := by
  refine ⟨fun span decl init t hinit h => ?_, fun span target value => ?_,
    fun span target value place u found v access inner htarget htoken hvalue hplain => ?_⟩
  · rw [checkStmt] at h
    exact token_of_checkVar hinit h
  · rw [checkStmt]
    exact exists_passes_checkAssign
  · rw [checkStmt, exists_passes_checkAssign, ← Ty.accepts_plain hplain, ← htoken]
    constructor
    · rintro ⟨place', u', found', v', htarget', hvalue', haccepts, -⟩
      cases htarget.1.symm.trans htarget'.1
      cases hvalue.1.symm.trans hvalue'.1
      exact haccepts
    · intro haccepts
      exact ⟨place, u, found, v, htarget, hvalue, haccepts, .inl (by rw [htoken]; rfl)⟩

end Check

namespace Linked

open Check

/-- A program with a routine that hijacks its parameter `x` as `h`, sets a variable `t` to that token
and then to a number. -/
def refilling : Linked where
  prelude := []
  items := [.decl (.routine {
    span := {}
    name := ⟨"f", {}⟩
    params := [⟨⟨"x", {}⟩, .named {} ⟨"s32", {}⟩ []⟩]
    result := none
    body := some [.access {} .hijacking ⟨"x", {}⟩ ⟨"h", {}⟩
      [.var {} { name := ⟨"t", {}⟩, mutable := true, init := some (.ident {} "h") },
        .assign {} (.ident {} "t") (.literal {} (.int 5 none))]] })]

/-- A state under the access in `refilling`, with the scope of its body. -/
def inRefilling (scope : Scope) : State :=
  let x : Symbol := { Symbol.var "x" (.num .s32) false {} with depth := 2 }
  let f : Symbol := { Symbol.routine "f" (.routine [.num .s32] .blank) false {} with depth := 1 }
  { table := { root := Table.builtins, inner := [scope, [x], [f]] }
    ledger :=
      { tokens := [⟨⟨"h", 3⟩, ⟨"x", 2⟩, .hijacking, {}⟩]
        holds := [(⟨"x", 2⟩, [⟨⟨"h", 3⟩, .hijacking⟩])] }
    result := some .blank }

/-- A variable that holds the token of the access in `refilling`. -/
def hijackedAs (name : String) (mutable : Bool) : Symbol :=
  { Symbol.var name (.token .hijacking (.num .s32)) mutable {} with depth := 3 }

/-- The state in which `t` is declared in `refilling`. -/
def unfilled : State :=
  inRefilling [hijackedAs "h" false]

/-- The state in which `t` is assigned to in `refilling`. -/
def refilled : State :=
  inRefilling [hijackedAs "h" false, hijackedAs "t" true]

theorem visited_unfilled : ∃ first rest,
    Visited {} refilling (.stmts (first :: rest)) unfilled ∧
      Visits (refilling.env {}) (.stmts (first :: rest)) unfilled (.stmts rest) refilled :=
  ⟨_, _, .visit (.visit (.visit .start (.routineBody rfl rfl rfl)) .firstStmt) (.accessBody rfl),
    .otherStmts rfl⟩

theorem reachable_unfilled : Reachable {} refilling unfilled := by
  obtain ⟨first, rest, h, -⟩ := visited_unfilled
  exact ⟨_, h⟩

theorem reachable_refilled : Reachable {} refilling refilled := by
  obtain ⟨first, rest, h, hrest⟩ := visited_unfilled
  exact ⟨_, .visit h hrest⟩

/-- In particular where `t` is declared and where it is assigned to. -/
theorem stored_in_token_binding_refilled :
    let env := refilling.env {}
    Reachable {} refilling unfilled ∧ Reachable {} refilling refilled ∧
      (∃ found u, Passes env (checkExpr (.ident {} "h") (.store 3)) unfilled found u ∧
        (found.isToken = true ∨ found = .unknown)) ∧
      ∃ t, Passes env (checkStmt (.assign {} (.ident {} "t") (.literal {} (.int 5 none)))) refilled
        () t := by
  intro env
  refine ⟨reachable_unfilled, reachable_refilled, ?_, ?_⟩
  · obtain ⟨hdeclare, -, -⟩ := stored_in_token_binding env unfilled
    obtain ⟨_, _, found, u, symbol, ⟨htype, -⟩, hfound, hfind, -, htoken⟩ := hdeclare {}
      { name := ⟨"t", {}⟩, mutable := true, init := some (.ident {} "h") } _ refilled rfl ⟨rfl, rfl⟩
    cases htype
    cases hfind
    exact ⟨found, u, hfound, htoken rfl⟩
  · obtain ⟨-, -, hassign⟩ := stored_in_token_binding env refilled
    exact (hassign {} (.ident {} "t") (.literal {} (.int 5 none)) _ refilled .intLiteral refilled
      .hijacking (.num .s32) ⟨rfl, rfl⟩ rfl ⟨rfl, rfl⟩ rfl).2 rfl

/-- A plain value can be stored in a variable that holds a token, and nothing is reported. -/
theorem plain_value_stored_in_token_variable :
    let env := refilling.env {}
    (refilling.analyze {}).diagnostics = [] ∧ Reachable {} refilling refilled ∧
      ∃ place found t, Passes env (assignTarget (.ident {} "t")) refilled place refilled ∧
        place.1.isToken = true ∧
        Passes env (checkExpr (.literal {} (.int 5 none)) (.store place.2)) refilled found refilled ∧
        found.isToken = false ∧ found ≠ .unknown ∧
        Passes env (checkStmt (.assign {} (.ident {} "t") (.literal {} (.int 5 none)))) refilled
          () t :=
  ⟨by decide +kernel, reachable_refilled, _, .intLiteral, _, ⟨rfl, rfl⟩, rfl, ⟨rfl, rfl⟩, rfl,
    by decide, rfl, rfl⟩

end Linked

end Custody
