import Custody.Proofs.Check.Coherent
import Custody.Proofs.Check.Passes

/-! What is lent for writing. A write to a place asks for a variable at its root that may be written
to. An argument for a parameter that writes is asked for the same if it is a name, but of any other
place only the type counts. -/

namespace Custody

/-- The name that a place is reached from, by members, indices and parentheses. -/
def Expr.root? : Expr → Option String
  | ident _ name => some name
  | paren _ inner => inner.root?
  | member _ object _ => object.root?
  | index _ object _ => object.root?
  | _ => none

namespace Symbol

/-- A variable that holds a token is written to through the token, and any other variable if it is
mutable. -/
def isWritable (symbol : Symbol) : Bool :=
  match symbol.access? with
  | some access => access.writes
  | none => symbol.isMutable

@[simp] theorem isWritable_setState (state : Holding) (symbol : Symbol) :
    (symbol.setState state).isWritable = symbol.isWritable := by
  simp [isWritable]

end Symbol

namespace Ty

theorem exists_token {t : Ty} {access : Access} (h : t.access? = some access) :
    ∃ inner, t = .token access inner := by
  cases t with
  | token kind inner =>
      cases h
      exact ⟨inner, rfl⟩
  | _ => cases h

/-- A parameter that writes takes no token but one that writes. -/
theorem writes_of_accepts {param found : Ty} {access kind : Access}
    (hparam : param.access? = some access) (hwrites : access.writes = true)
    (hfound : found.access? = some kind) (haccepts : param.accepts found = true) :
    kind.writes = true := by
  obtain ⟨target, rfl⟩ := exists_token hparam
  obtain ⟨inner, rfl⟩ := exists_token hfound
  rw [accepts, Bool.and_eq_true, Bool.or_eq_true, beq_iff_eq, beq_iff_eq] at haccepts
  rcases haccepts.1 with rfl | rfl
  · exact hwrites
  · cases hwrites

end Ty

theorem Ledger.writes_of_checkTokenUse {name : String} {access : Access} {tokenDepth depth : Nat}
    {usurping : Bool} (h : checkTokenUse name access tokenDepth depth .write usurping = .ok ()) :
    access.writes = true := by
  unfold checkTokenUse at h
  split at h
  · cases h
  · simp only at h
    split at h
    · assumption
    · cases h

namespace Check

variable {env : Env} {s t u : State} {param : Ty} {arg : Expr} {access : Access}

/-! ### Arguments -/

/-- Checks one argument against the parameter it is passed to. -/
def checkArg (param : Ty) (arg : Expr) : Check Unit := do
  let found ← attempt (checkExpr arg (.argument param.isToken))
  passArgument param arg found

theorem checkArgs_cons (arg : Expr) (args : List Expr) (param : Ty) (params : List Ty) :
    checkArgs (arg :: args) (param :: params) = (do
      checkArg param arg
      checkArgs args params) := by
  rw [checkArgs, checkArg, bind_assoc]

theorem checkArg_keeps {R : Nat → State → State → Prop} (frame : ExprFrame env R) (param : Ty)
    (arg : Expr) : Keeps env (R 0) (checkArg param arg) s :=
  .seq frame.toFrame (.attempt frame.toFrame (checkExpr_keeps frame arg _ s)) fun _ _ hrun =>
    passArgument_keeps frame (usable_of_attempt hrun)

/-- If the argument is the name of a variable, that variable has the property `p`. -/
def Named (p : Symbol → Prop) (arg : Expr) (s : State) : Prop :=
  ∀ name, arg.asIdent = some name → ∀ symbol, s.table.find? name = some symbol →
    symbol.isVar = true → p symbol

/-- A variable is lent to a parameter that writes only if it holds a token or is mutable. -/
theorem passes_checkLend (hparam : param.access? = some access) (hwrites : access.writes = true) :
    Passes env (checkLend param arg) s () t ↔
      t = s ∧ Named (fun symbol => symbol.access? = none → symbol.isMutable = true) arg s := by
  rw [checkLend, passes_state, Named]
  cases hname : arg.asIdent with
  | none => simp [passes_pure]
  | some name =>
      cases hfind : s.table.find? name with
      | none => simp [passes_pure, hfind]
      | some symbol =>
          simp only [passes_require, hparam, hwrites, hfind, Option.any_some, Bool.true_and,
            Option.some.injEq, forall_eq']
          cases symbol.isVar <;> cases symbol.access? <;> cases symbol.isMutable <;> simp

/-- The name of a variable is used as an argument without any change. -/
theorem checkExpr_named {name : String} {symbol : Symbol} {use : Use} {found : Ty}
    (h : checkExpr arg use env s = (.ok found, t)) (hname : arg.asIdent = some name)
    (hfind : t.table.find? name = some symbol) : found = symbol.ty := by
  obtain ⟨span, hcheck⟩ := checkExpr_of_asIdent use hname
  rw [hcheck] at h
  obtain ⟨rfl, other, hother, rfl, -⟩ := checkIdent_eq_ok h
  rw [Option.some.inj (hfind.symm.trans hother)]

/-- A variable that is passed to a parameter that writes is writable if and only if it holds a token,
which is then one that writes, or is mutable. -/
theorem named_isWritable_iff {found : Ty} {use : Use} (hparam : param.access? = some access)
    (hwrites : access.writes = true) (hfound : checkExpr arg use env s = (.ok found, t))
    (haccepts : param.accepts found = true) :
    Named (·.isWritable = true) arg t ↔
      Named (fun symbol => symbol.access? = none → symbol.isMutable = true) arg t := by
  refine forall₂_congr fun name hname => forall₂_congr fun symbol hfind => ?_
  refine forall_congr' fun hvar => ?_
  cases hkind : symbol.access? with
  | none => simp [Symbol.isWritable, hkind]
  | some kind =>
      have hty : symbol.ty.access? = some kind := by
        rw [← hkind, Symbol.access?, if_pos hvar]
      rw [checkExpr_named hfound hname hfind] at haccepts
      simp [Symbol.isWritable, hkind, Ty.writes_of_accepts hparam hwrites hty haccepts]

/-- An argument for a parameter that writes passes if and only if it may be used, its type is accepted,
and it is not the name of a variable that may not be written to. -/
theorem passes_checkArg (hparam : param.access? = some access) (hwrites : access.writes = true) :
    Passes env (checkArg param arg) s () t ↔
      ∃ found, Passes env (checkExpr arg (.argument true)) s found t ∧
        param.accepts found = true ∧ Named (·.isWritable = true) arg t := by
  have htoken : param.isToken = true := by rw [Ty.isToken, hparam]; rfl
  have harg : Keeps env (Growing 0) (checkExpr arg (.argument true)) s :=
    checkExpr_keeps exprFrame_growing arg _ s
  rw [checkArg, htoken, passes_bind (.attempt frame_growing harg) fun _ _ hrun =>
    passArgument_keeps exprFrame_growing (usable_of_attempt hrun)]
  simp only [passes_attempt harg]
  have hlends {found : Ty} (haccepts : param.accepts found = true) :
      passArgument param arg (some found) = checkLend param arg := by
    simp [passArgument, haccepts, htoken]
  constructor
  · rintro ⟨_, u, ⟨found, rfl, hfound⟩, hpass⟩
    cases haccepts : param.accepts found with
    | false => exact absurd hpass (by simp [passArgument, haccepts, not_passes_report])
    | true =>
        rw [hlends haccepts, passes_checkLend hparam hwrites] at hpass
        obtain ⟨rfl, hlend⟩ := hpass
        exact ⟨found, hfound, haccepts,
          (named_isWritable_iff hparam hwrites hfound.1 haccepts).2 hlend⟩
  · rintro ⟨found, hfound, haccepts, hwritable⟩
    refine ⟨some found, t, ⟨found, rfl, hfound⟩, ?_⟩
    rw [hlends haccepts, passes_checkLend hparam hwrites]
    exact ⟨rfl, (named_isWritable_iff hparam hwrites hfound.1 haccepts).1 hwritable⟩

/-- What has been moved since was writable before. -/
theorem Named.isWritable_before (h : Named (·.isWritable = true) arg t)
    (hkept : State.Kept Symbol.Aged 0 s t) : Named (·.isWritable = true) arg s := by
  intro name hname symbol hfind hvar
  have hrel := hkept.table.find?_changed Symbol.isChange_aged name
  rw [hfind] at hrel
  obtain ⟨changed, hchanged, haged⟩ := Table.exists_of_rel_some hrel
  obtain ⟨state, rfl⟩ := haged.similar
  simpa using h name hname _ hchanged (by simpa using hvar)

/-- The arguments of a call that passes pass one by one, each in the state that the ones before it have
left. -/
theorem passes_of_mem_zip {args : List Expr} {params : List Ty} (hs : s.Sound)
    (h : Passes env (checkArgs args params) s () t) (hmem : (arg, param) ∈ args.zip params) :
    ∃ u v, State.Kept Symbol.Aged 0 s u ∧ Passes env (checkArg param arg) u () v := by
  induction args generalizing params s with
  | nil => cases hmem
  | cons first args ih =>
      cases params with
      | nil => cases hmem
      | cons target params =>
          rw [checkArgs_cons, passes_bind (checkArg_keeps exprFrame_growing target first)
            fun _ u _ => checkArgs_keeps exprFrame_growing args params u] at h
          obtain ⟨_, u, hfirst, hrest⟩ := h
          rcases List.mem_cons.1 hmem with heq | hmem
          · cases heq
            exact ⟨s, u, .refl Symbol.isChange_aged s, hfirst⟩
          · have hkept := (checkArg_keeps exprFrame_aged target first).related hfirst.1 hs
            obtain ⟨v, w, hv, hpasses⟩ := ih (hkept.sound hs) hrest hmem
            exact ⟨v, w, .trans Symbol.isChange_aged hkept hv, hpasses⟩

/-- A call that passes passes its arguments, which are checked once the callee is known. -/
theorem passes_checkArgs {span : Span} {callee : Expr} {args : List Expr} {use : Use} {ty : Ty}
    {params : List Ty} (hs : s.Sound) (h : Passes env (checkExpr (.call span callee args) use) s ty t)
    (hargs : Visits env (.expr (.call span callee args) use) s (.args args params) u) :
    State.Kept Symbol.Aged 0 s u ∧ ∃ v, Passes env (checkArgs args params) u () v := by
  cases hargs with
  | args hcallee hty harity =>
      obtain ⟨hrun, hsame⟩ := h
      rw [checkExpr] at hrun
      obtain ⟨_, v, hreject, hrun⟩ := bind_eq_ok hrun
      obtain ⟨found, w, hcheck, hrun⟩ := bind_eq_ok hrun
      rw [bind_apply, hreject] at hcallee
      cases hcallee.symm.trans hcheck
      rw [hty] at hrun
      obtain ⟨_, _, hrequire, hrun⟩ := bind_eq_ok hrun
      cases harity.symm.trans hrequire
      obtain ⟨_, _, hargs, hpure⟩ := bind_eq_ok hrun
      cases hpure
      have hbefore {R : Nat → State → State → Prop} (frame : ExprFrame env R) : R 0 s u := by
        have hfirst := (rejectTypeCallee_keeps frame.toFrame callee).related hreject
        have hsecond := (checkExpr_keeps frame callee .read v).related hcheck
        refine frame.trans (n := 0) (frame.trans hfirst hsecond) ?_
        refine Keeps.related (.require frame.toFrame ?_) hrequire
        rfl
      obtain ⟨-, hsilent⟩ := (eq_iff_of_prefixes (hbefore exprFrame_growing)
        ((checkArgs_keeps exprFrame_growing args params u).related hargs)).1 hsame
      exact ⟨hbefore exprFrame_aged hs, t, hargs, hsilent⟩

/-! ### Places -/

/-- A place that is written to belongs to a variable that may be written to. -/
theorem checkPlace_root (hs : s.Coherent) : ∀ (place : Expr) {t : State} {result : Ty × Nat},
    checkPlace place env s = (.ok result, t) →
    ∃ name symbol, place.root? = some name ∧ s.table.find? name = some symbol ∧
      symbol.isVar = true ∧ symbol.isWritable = true
  | .paren _ inner, _, _, h => by
      rw [checkPlace] at h
      exact checkPlace_root hs inner h
  | .ident span name, _, _, h => by
      obtain ⟨-, symbol, hfind, hvar, hallowed, hmutable, -⟩ := checkPlace_ident_eq_ok h
      refine ⟨name, symbol, rfl, hfind, hvar, ?_⟩
      unfold Symbol.isWritable
      cases hkind : symbol.access? with
      | none => exact hmutable hkind
      | some kind =>
          obtain ⟨-, -, htoken⟩ := (hs.checkUse_token hfind hkind .write).1 hallowed
          exact Ledger.writes_of_checkTokenUse htoken
  | .member _ object property, _, _, h => by
      rw [checkPlace] at h
      obtain ⟨_, _, hobject, -⟩ := bind_eq_ok h
      exact checkPlace_root hs object hobject
  | .index span object position, _, _, h => by
      rw [checkPlace] at h
      obtain ⟨_, _, hobject, -⟩ := bind_eq_ok h
      exact checkPlace_root hs object hobject
  | .literal .., _, _, h | .binary .., _, _, h | .unary .., _, _, h | .call .., _, _, h
  | .construct .., _, _, h | .convert .., _, _, h | .raw .., _, _, h | .access .., _, _, h => by
      cases h

end Check

/-! ### Analyses -/

namespace Linked

open Check

variable {settings : Settings} {linked : Linked} {s : State}

/-- A routine that lends a variable of its own, and then a field of its parameter, to a routine that
writes. -/
def lender : Routine where
  span := {}
  name := ⟨"g", {}⟩
  params := [⟨⟨"q", {}⟩, .named {} ⟨"Point", {}⟩ []⟩]
  result := none
  body := some
    [.var {} {
        name := ⟨"n", {}⟩
        mutable := true
        type := some (.named {} ⟨"s32", {}⟩ [])
        init := some (.literal {} (.int 1 none)) },
      .expr {} (.call {} (.ident {} "write") [.ident {} "n"]),
      .expr {} (.call {} (.ident {} "write") [.member {} (.ident {} "q") ⟨"x", {}⟩])]

/-- The program of the routine `lender`. -/
def lendingField : Linked where
  prelude := []
  items :=
    [.decl (.type {
        semantics := .value
        name := ⟨"Point", {}⟩
        params := []
        fields := [{ name := ⟨"x", {}⟩, type := .named {} ⟨"s32", {}⟩ [] }] }),
      .decl (.routine {
        span := {}
        name := ⟨"write", {}⟩
        params := [⟨⟨"p", {}⟩, .named {} ⟨"Hijacked", {}⟩ [.named {} ⟨"s32", {}⟩ []]⟩]
        result := none
        body := none }),
      .decl (.routine lender)]

/-- What `lendingField` declares before the routine `lender`. -/
def lendingScope : Scope :=
  [{ Symbol.composite .value "Point" [("x", .num .s32)] [] {} with depth := 1 },
    { Symbol.routine "write" (.routine [.token .hijacking (.num .s32)] .blank) false {} with
      depth := 1 }]

/-- A state in the routine `lender`, with the scope of its body. -/
def inLender (scope : Scope) : State :=
  let g : Symbol := { Symbol.routine "g" (.routine [.plain "Point"] .blank) false {} with depth := 1 }
  { table := { root := Table.builtins, inner := [scope, lendingScope ++ [g]] }
    result := some .blank }

/-- The parameter of the routine `lender`. -/
def lenderParam : Symbol :=
  { Symbol.var "q" (.plain "Point") false {} with depth := 2 }

/-- The state in which both calls in `lender` are checked. -/
def lendable : State :=
  inLender [lenderParam, { Symbol.var "n" (.num .s32) true {} with depth := 2 }]

theorem visited_lender : Visited {} lendingField (.items [.decl (.routine lender)])
    { table := { root := Table.builtins, inner := [lendingScope] } } :=
  .visit (.visit .start (.otherItems rfl)) (.otherItems rfl)

theorem visited_lender_body : ∃ first rest,
    Visited {} lendingField (.stmts (first :: rest)) (inLender [lenderParam]) ∧
      Visits (lendingField.env {}) (.stmts (first :: rest)) (inLender [lenderParam])
        (.stmts rest) lendable :=
  ⟨_, _, .visit visited_lender (.routineBody rfl rfl rfl), .otherStmts rfl⟩

theorem reachable_lendable : Reachable {} lendingField lendable := by
  obtain ⟨first, rest, h, hrest⟩ := visited_lender_body
  exact ⟨_, .visit h hrest⟩

/-- In a call that passes, a variable whose name is an argument for a parameter that writes may be
written to. For such a parameter an argument passes if and only if it may be used, its type is accepted
and it is not the name of a variable that may not be written to; so of a place that is not a name,
nothing is asked but its type. A place that is assigned to is always one of a variable that may be
written to. -/
theorem lent_for_writing (hs : Reachable settings linked s) :
    (∀ span callee args use ty t params u,
      Passes (linked.env settings) (checkExpr (.call span callee args) use) s ty t →
      Visits (linked.env settings) (.expr (.call span callee args) use) s (.args args params) u →
      ∀ arg param access, (arg, param) ∈ args.zip params → param.access? = some access →
        access.writes = true → Named (·.isWritable = true) arg s) ∧
    (∀ arg param access t, param.access? = some access → access.writes = true →
      (Passes (linked.env settings) (checkArg param arg) s () t ↔
        ∃ found, Passes (linked.env settings) (checkExpr arg (.argument true)) s found t ∧
          param.accepts found = true ∧ Named (·.isWritable = true) arg t)) ∧
    ∀ place result t, checkPlace place (linked.env settings) s = (.ok result, t) →
      ∃ name symbol, place.root? = some name ∧ s.table.find? name = some symbol ∧
        symbol.isVar = true ∧ symbol.isWritable = true := by
  have hcoherent := hs.coherent
  refine ⟨fun span callee args use ty t params u hcall hargs arg param access hmem hparam hwrites => ?_,
    fun arg param access t hparam hwrites => passes_checkArg hparam hwrites,
    fun place result t h => checkPlace_root hcoherent place h⟩
  obtain ⟨hbefore, v, hpasses⟩ := passes_checkArgs hcoherent.sound hcall hargs
  obtain ⟨w, x, hothers, harg⟩ := passes_of_mem_zip (hbefore.sound hcoherent.sound) hpasses hmem
  obtain ⟨found, hfound, -, hwritable⟩ := (passes_checkArg hparam hwrites).1 harg
  have hkept : State.Kept Symbol.Aged 0 s w := .trans Symbol.isChange_aged hbefore hothers
  have hread := kept_checkExpr (linked.env settings) (hkept.sound hcoherent.sound) arg (.argument true)
  rw [hfound.1] at hread
  exact (hwritable.isWritable_before hread).isWritable_before hkept

/-- In particular where the variable is lent. -/
theorem lent_for_writing_variable :
    let env := lendingField.env {}
    let call : Expr := .call {} (.ident {} "write") [.ident {} "n"]
    let param : Ty := .token .hijacking (.num .s32)
    Reachable {} lendingField lendable ∧
      (∃ t, Passes env (checkExpr call .read) lendable .blank t) ∧
      Visits env (.expr call .read) lendable (.args [.ident {} "n"] [param]) lendable ∧
      (lendable.table.find? "n").any (·.isWritable) = true := by
  intro env call param
  have hcall : Passes env (checkExpr call .read) lendable .blank lendable := ⟨rfl, rfl⟩
  have hargs : Visits env (.expr call .read) lendable (.args [.ident {} "n"] [param]) lendable :=
    .args rfl rfl rfl
  obtain ⟨hlent, -, -⟩ := lent_for_writing reachable_lendable
  have hwritable := hlent _ _ _ _ _ _ _ _ hcall hargs (.ident {} "n") param .hijacking
    List.mem_cons_self rfl rfl
  refine ⟨reachable_lendable, ⟨lendable, hcall⟩, hargs, ?_⟩
  exact hwritable "n" rfl _ rfl rfl

/-- A field of a variable that may not be written to is lent for writing, and nothing is reported;
an assignment to it is rejected. -/
theorem unwritable_field_lent :
    let env := lendingField.env {}
    let place : Expr := .member {} (.ident {} "q") ⟨"x", {}⟩
    let call : Expr := .call {} (.ident {} "write") [place]
    (lendingField.analyze {}).diagnostics = [] ∧ Reachable {} lendingField lendable ∧
      (∃ t, Passes env (checkExpr call .read) lendable .blank t) ∧
      Visits env (.expr call .read) lendable
        (.args [place] [.token .hijacking (.num .s32)]) lendable ∧
      place.root? = some "q" ∧
      (lendable.table.find? "q").any (fun q => q.isVar && !q.isWritable) = true ∧
      (checkPlace place env lendable).1 = .error ⟨.assignToImmutable "q", {}⟩ :=
  ⟨by decide +kernel, reachable_lendable, ⟨_, rfl, rfl⟩, .args rfl rfl rfl, rfl, rfl, rfl⟩

end Linked

end Custody
