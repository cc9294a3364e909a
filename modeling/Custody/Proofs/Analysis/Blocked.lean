import Custody.Proofs.Check.Coherent
import Custody.Proofs.Check.Passes

/-! Variables that must not be used. A variable is blocked while it is moved or held. It stays blocked
along the check of an expression, so an expression that mentions it is not accepted: its check is cut
short or reports something. -/

namespace Custody

/-- The name stands in the expression as an expression of its own, and no inline access around that
place hides it by its token. -/
inductive Expr.Mentions (name : String) : Expr → Prop
  | ident {span} : Mentions name (.ident span name)
  | paren {span inner} (h : Mentions name inner) : Mentions name (.paren span inner)
  | left {span left op right} (h : Mentions name left) : Mentions name (.binary span left op right)
  | right {span left op right} (h : Mentions name right) :
      Mentions name (.binary span left op right)
  | operand {span op operand} (h : Mentions name operand) : Mentions name (.unary span op operand)
  | callee {span callee args} (h : Mentions name callee) : Mentions name (.call span callee args)
  | arg {span callee args arg} (hmem : arg ∈ args) (h : Mentions name arg) :
      Mentions name (.call span callee args)
  | object {span object property} (h : Mentions name object) :
      Mentions name (.member span object property)
  | indexed {span object position} (h : Mentions name object) :
      Mentions name (.index span object position)
  | position {span object position} (h : Mentions name position) :
      Mentions name (.index span object position)
  | init {span type inits init} (hmem : init ∈ inits) (h : Mentions name init.value) :
      Mentions name (.construct span type inits)
  | converted {span operand target} (h : Mentions name operand) :
      Mentions name (.convert span operand target)
  | rawArg {span op type args arg} (hmem : arg ∈ args) (h : Mentions name arg) :
      Mentions name (.raw span op type args)
  | body {span kind source token body} (htoken : token.name ≠ name) (h : Mentions name body) :
      Mentions name (.access span kind source token body)

namespace Expr.Mentions

variable {name other : String}

/-- An expression that is a name, up to parentheses, mentions nothing else. -/
theorem eq_of_asIdent {expr : Expr} (h : expr.Mentions name) (hother : expr.asIdent = some other) :
    name = other := by
  induction h with
  | ident => exact Option.some.inj hother
  | paren h ih => exact ih hother
  | _ => cases hother

end Expr.Mentions

/-! ### Blocked variables -/

theorem Symbol.isMoved_setState {symbol : Symbol} (h : symbol.isVar = true) :
    (symbol.setState .moved).isMoved = true := by
  rcases symbol with ⟨name, kind, ty, visibility, depth, span⟩
  cases kind with
  | var mutable state => rfl
  | _ => cases h

/-- The name stands for a variable that is moved or held. -/
structure State.Blocked (name : String) (s : State) : Prop where
  sound : s.Sound
  blocked : ∃ symbol, s.table.find? name = some symbol ∧ symbol.isVar = true ∧
    (symbol.isMoved = true ∨ s.ledger.isHeld symbol.key = true)

namespace State.Blocked

variable {name : String} {s t : State}

theorem kept (h : s.Blocked name) (hkept : Kept Symbol.Aged 0 s t) : t.Blocked name := by
  obtain ⟨symbol, hfind, hvar, hblocked⟩ := h.blocked
  have hrel := hkept.table.find?_changed Symbol.isChange_aged name
  rw [hfind] at hrel
  obtain ⟨changed, hchanged, haged⟩ := Table.exists_of_rel_some hrel
  refine ⟨hkept.sound h.sound, changed, hchanged, ?_⟩
  rw [hkept.ledger]
  rcases haged with rfl | rfl
  · exact ⟨hvar, hblocked⟩
  · exact ⟨(Symbol.isVar_setState _ _).trans hvar, .inl (Symbol.isMoved_setState hvar)⟩

/-- The scope of an access hides nothing but its token. -/
theorem opened {kind : Access} {source token : Ident} {opened : Option Binding}
    (h : s.Blocked name) (hopened : Check.Opened kind source token s opened t)
    (htoken : token.name ≠ name) : t.Blocked name := by
  obtain ⟨symbol, hfind, hvar, hblocked⟩ := h.blocked
  refine ⟨hopened.sound h.sound, symbol, ?_, hvar, hblocked.imp_right hopened.isHeld⟩
  obtain ⟨inner, htable⟩ := hopened.table_eq
  rw [htable, Table.find?_push_append htoken]
  exact hfind

/-- The rules allow no use of a blocked variable. -/
theorem checkUse_error (h : s.Blocked name) (use : Use) : ∃ symbol fault,
    s.table.find? name = some symbol ∧ symbol.isVar = true ∧ s.checkUse symbol use = .error fault := by
  obtain ⟨symbol, hfind, hvar, hblocked⟩ := h.blocked
  unfold State.checkUse
  cases hmoved : symbol.isMoved with
  | true => exact ⟨symbol, _, hfind, hvar, by simp [hmoved]; rfl⟩
  | false =>
      rw [hmoved] at hblocked
      obtain ⟨hold, hhold⟩ := h.sound.lastHold?_of_isHeld (hblocked.resolve_left (by simp))
      exact ⟨symbol, _, hfind, hvar, by simp [hmoved, Ledger.checkUse, hhold]; rfl⟩

end State.Blocked

/-! ### Complaints -/

namespace Check

/-- The check is cut short, or it adds at least one diagnostic. -/
def Complains {α : Type} (env : Env) (check : Check α) (s : State) : Prop :=
  (∃ diagnostic, (check env s).1 = .error diagnostic) ∨
    ∃ new, new ≠ [] ∧ (check env s).2.diagnostics = s.diagnostics ++ new

/-- Diagnostics are only added, and as far as the state is sound, variables are only moved. -/
def Watching (n : Nat) (s t : State) : Prop :=
  s.diagnostics <+: t.diagnostics ∧ Keeping Symbol.Aged n s t

variable {α β : Type} {env : Env} {name : String} {s t : State}

theorem exprFrame_watching : ExprFrame env Watching :=
  exprFrame_growing.and exprFrame_aged

namespace Complains

theorem fail {fault : Fault} {span : Span} : Complains env (Check.fail fault span : Check α) s :=
  .inl ⟨_, rfl⟩

/-- What complains later still adds to what was there before. -/
theorem of_le {check : Check α} {new : List Diagnostic} (ht : t.diagnostics = s.diagnostics ++ new)
    (h : Complains env check t) : (∃ diagnostic, (check env t).1 = .error diagnostic) ∨
      ∃ new, new ≠ [] ∧ (check env t).2.diagnostics = s.diagnostics ++ new := by
  rcases h with herror | ⟨more, hne, hmore⟩
  · exact .inl herror
  · refine .inr ⟨new ++ more, by simp [hne], ?_⟩
    rw [hmore, ht, List.append_assoc]

/-- A part that complains is not made up for by the rest. -/
theorem first {check : Check α} {next : α → Check β} (h : Complains env check s)
    (hnext : ∀ a t, check env s = (.ok a, t) → Keeps env (Watching 0) (next a) t) :
    Complains env (check >>= next) s := by
  rcases hrun : check env s with ⟨cause | a, t⟩
  · exact .inl ⟨cause, by rw [bind_apply, hrun]⟩
  · have hbind : (check >>= next) env s = next a env t := by rw [bind_apply, hrun]
    unfold Complains at h ⊢
    rw [hrun] at h
    rcases h with ⟨diagnostic, herror⟩ | ⟨new, hne, hnew⟩
    · cases herror
    · obtain ⟨rest, hrest⟩ := (hnext a t hrun).left.1
      refine .inr ⟨new ++ rest, by simp [hne], ?_⟩
      rw [hbind, ← hrest, hnew, List.append_assoc]

/-- A variable that is blocked in front of the first part is still blocked behind it. -/
theorem later {check : Check α} {next : α → Check β} (hblocked : s.Blocked name)
    (hcheck : Keeps env (Watching 0) check s)
    (hnext : ∀ a t, check env s = (.ok a, t) → t.Blocked name → Complains env (next a) t) :
    Complains env (check >>= next) s := by
  rcases hrun : check env s with ⟨cause | a, t⟩
  · exact .inl ⟨cause, by rw [bind_apply, hrun]⟩
  · have hwatched := hcheck.left
    rw [hrun] at hwatched
    obtain ⟨⟨new, hnew⟩, hkeeping⟩ := hwatched
    have hbind : (check >>= next) env s = next a env t := by rw [bind_apply, hrun]
    unfold Complains
    rw [hbind]
    exact of_le hnew.symm (hnext a t hrun (hblocked.kept (hkeeping hblocked.sound)))

theorem attempt {check : Check α} (h : Complains env check s)
    (hcheck : Keeps env (Watching 0) check s) : Complains env (Check.attempt check) s := by
  obtain ⟨new, hnew⟩ := hcheck.left.1
  rcases hrun : check env s with ⟨cause | a, t⟩
  · rw [hrun] at hnew
    refine .inr ⟨new ++ [cause], by simp, ?_⟩
    simp only [Check.attempt, hrun, State.report]
    rw [← hnew, List.append_assoc]
  · unfold Complains at h
    rw [hrun] at h
    rcases h with ⟨diagnostic, herror⟩ | ⟨more, hne, hmore⟩
    · cases herror
    · exact .inr ⟨more, hne, by simp only [Check.attempt, hrun]; exact hmore⟩

theorem withAccess {check : Check α} {span : Span} {kind : Access} {source token : Ident}
    {opened : Option Binding} (hopen : openAccess span kind source token env s = (.ok opened, t))
    (hopened : Opened kind source token s opened t) (h : Complains env check t) :
    Complains env (Check.withAccess span kind source token check) s := by
  obtain ⟨before, hbefore⟩ := hopened.diagnostics_le
  unfold Complains
  rw [withAccess_apply hopen]
  rcases of_le hbefore.symm h with herror | ⟨new, hne, hnew⟩
  · exact .inl herror
  · obtain ⟨after, hafter⟩ := diagnostics_le_endAccess opened (check env t).2 (s.depth + 1)
    refine .inr ⟨new ++ after, by simp [hne], ?_⟩
    rw [← hafter, hnew, List.append_assoc]

end Complains

/-! ### Expressions that mention a blocked variable -/

/-- Whatever becomes of the value, the check of the expression complains where `name` is blocked. -/
def Rejected (env : Env) (name : String) (expr : Expr) : Prop :=
  ∀ use s, s.Blocked name → Complains env (checkExpr expr use) s

section
variable {arg : Expr} (harg : Rejected env name arg)
include harg

theorem complains_attempt (use : Use) (hblocked : s.Blocked name) :
    Complains env (attempt (checkExpr arg use)) s :=
  (harg use s hblocked).attempt (checkExpr_keeps exprFrame_watching arg use s)

theorem complains_checkArgs {args : List Expr} (hmem : arg ∈ args) (params : List Ty)
    (hblocked : s.Blocked name) : Complains env (checkArgs args params) s := by
  have frame : ExprFrame env Watching := exprFrame_watching
  induction args generalizing params s with
  | nil => cases hmem
  | cons head tail ih =>
      cases params with
      | nil =>
          rw [checkArgs]
          rcases List.mem_cons.1 hmem with rfl | hmem
          · exact .first (complains_attempt harg .read hblocked) fun _ t _ =>
              checkArgs_keeps frame tail [] t
          · exact .later hblocked (.attempt frame.toFrame (checkExpr_keeps frame head .read s))
              fun _ _ _ ht => ih hmem [] ht
      | cons param params =>
          rw [checkArgs]
          rcases List.mem_cons.1 hmem with rfl | hmem
          · refine .first (complains_attempt harg _ hblocked) fun _ _ hrun => ?_
            exact .seq frame.toFrame (passArgument_keeps frame (usable_of_attempt hrun))
              fun _ t _ => checkArgs_keeps frame tail params t
          · refine .later hblocked (.attempt frame.toFrame (checkExpr_keeps frame head _ s))
              fun _ _ hrun ht => ?_
            exact .later ht (passArgument_keeps frame (usable_of_attempt hrun))
              fun _ _ _ hu => ih hmem params hu

theorem complains_checkLooseArgs {args : List Expr} (hmem : arg ∈ args)
    (hblocked : s.Blocked name) : Complains env (checkLooseArgs args) s := by
  have frame : ExprFrame env Watching := exprFrame_watching
  induction args generalizing s with
  | nil => cases hmem
  | cons head tail ih =>
      rw [checkLooseArgs]
      rcases List.mem_cons.1 hmem with rfl | hmem
      · exact .first (complains_attempt harg _ hblocked) fun _ t _ =>
          checkLooseArgs_keeps frame tail t
      · exact .later hblocked (.attempt frame.toFrame (checkExpr_keeps frame head _ s))
          fun _ _ _ ht => ih hmem ht

theorem complains_raw {span : Span} {op : RawOp} {type : Option TypeExpr} {args : List Expr}
    (hmem : arg ∈ args) (use : Use) (hblocked : s.Blocked name) :
    Complains env (checkExpr (.raw span op type args) use) s := by
  have frame : ExprFrame env Watching := exprFrame_watching
  unfold checkExpr
  refine .later hblocked (requireUnsafe_keeps frame.toFrame _ _) fun _ t _ ht => ?_
  split
  · obtain rfl := List.mem_singleton.1 hmem
    split
    · exact .fail
    · exact .first (harg .read t ht) fun _ _ _ => .pure frame.toFrame _
  · obtain rfl := List.mem_singleton.1 hmem
    refine .later ht (rawType_keeps frame.toFrame _ _ _) fun _ u _ hu => ?_
    exact .first (harg .read u hu) fun _ _ _ =>
      .seq frame.toFrame (expectAddress_keeps frame.toFrame _ _) fun _ _ _ =>
        .pure frame.toFrame _
  · refine .later ht (rawType_keeps frame.toFrame _ _ _) fun _ u _ hu => ?_
    rcases List.mem_pair.1 hmem with rfl | rfl
    · refine .first (harg .read u hu) fun _ _ _ => ?_
      refine .seq frame.toFrame (expectAddress_keeps frame.toFrame _ _) fun _ v _ => ?_
      refine .seq frame.toFrame (checkExpr_keeps frame _ _ v) fun _ _ _ => ?_
      exact .seq frame.toFrame (.judge frame.toFrame fun _ h => Ty.expect_error h)
        fun _ _ _ => .pure frame.toFrame _
    · refine .later hu (checkExpr_keeps frame _ .read u) fun _ v _ hv => ?_
      refine .later hv (expectAddress_keeps frame.toFrame _ _) fun _ w _ hw => ?_
      refine .first (harg _ w hw) fun _ _ _ => ?_
      exact .seq frame.toFrame (.judge frame.toFrame fun _ h => Ty.expect_error h)
        fun _ _ _ => .pure frame.toFrame _
  · exact .fail

end

theorem complains_checkInits {owner : Ty} {fields : List (String × Ty)} {init : FieldInit Expr}
    (hinit : Rejected env name init.value) {inits : List (FieldInit Expr)} (hmem : init ∈ inits)
    (seen : List String) (hblocked : s.Blocked name) :
    Complains env (checkInits owner fields inits seen) s := by
  have frame : ExprFrame env Watching := exprFrame_watching
  induction inits generalizing seen s with
  | nil => cases hmem
  | cons head tail ih =>
      rw [checkInits]
      rcases List.mem_cons.1 hmem with rfl | hmem
      · refine .first (complains_attempt hinit _ hblocked) fun _ _ hrun => ?_
        split
        · exact .seq frame.toFrame (.report frame.toFrame rfl) fun _ t _ =>
            checkInits_keeps frame owner fields tail seen t
        · exact .seq frame.toFrame (initField_keeps frame (usable_of_attempt hrun)) fun _ t _ =>
            checkInits_keeps frame owner fields tail _ t
      · refine .later hblocked (.attempt frame.toFrame (checkExpr_keeps frame _ _ s))
          fun _ _ hrun ht => ?_
        split
        · exact .later ht (.report frame.toFrame rfl) fun _ _ _ hu => ih hmem seen hu
        · exact .later ht (initField_keeps frame (usable_of_attempt hrun)) fun _ _ _ hu =>
            ih hmem _ hu

/-- The name of a variable is not the name of a module. -/
theorem namedModule_of_mentions {object : Expr} {found : Option (String × String)}
    (h : object.Mentions name) (hblocked : s.Blocked name)
    (hrun : namedModule object env s = (.ok found, t)) : found = none := by
  obtain ⟨symbol, hfind, hvar, -⟩ := hblocked.blocked
  cases hrun
  cases hname : object.asIdent with
  | none => rfl
  | some other =>
      obtain rfl := h.eq_of_asIdent hname
      rcases symbol with ⟨symbolName, kind, ty, visibility, depth, span⟩
      cases kind with
      | var mutable state => simp [hfind, Symbol.module?]
      | _ => cases hvar

theorem complains_of_mentions {expr : Expr} (h : expr.Mentions name) : Rejected env name expr := by
  have frame : ExprFrame env Watching := exprFrame_watching
  intro use s hblocked
  induction h generalizing use s with
  | ident =>
      obtain ⟨symbol, fault, hfind, hvar, hfault⟩ := hblocked.checkUse_error use
      rw [checkExpr]
      exact .inl ⟨_, by rw [checkIdent_of_isVar use _ hfind hvar, hfault]⟩
  | paren h ih =>
      rw [checkExpr]
      exact ih use s hblocked
  | left h ih =>
      rw [checkExpr]
      refine .first (ih .read s hblocked) fun _ t _ => ?_
      exact .seq frame.toFrame (checkExpr_keeps frame _ .read t) fun _ _ _ =>
        .judge frame.toFrame fun _ h => Ty.binary_error h
  | right h ih =>
      rw [checkExpr]
      refine .later hblocked (checkExpr_keeps frame _ .read s) fun _ t _ ht => ?_
      exact .first (ih .read t ht) fun _ _ _ => .judge frame.toFrame fun _ h => Ty.binary_error h
  | operand h ih =>
      rw [checkExpr]
      exact .first (ih .read s hblocked) fun _ _ _ =>
        .judge frame.toFrame fun _ h => Ty.unary_error h
  | callee h ih =>
      rw [checkExpr]
      refine .later hblocked (rejectTypeCallee_keeps frame.toFrame _) fun _ t _ ht => ?_
      exact .first (ih .read t ht) fun ty u _ => passArgs_keeps frame.toFrame
        (checkArgs_keeps frame _) (checkLooseArgs_keeps frame _) ty _ _ u
  | arg hmem h ih =>
      rw [checkExpr]
      refine .later hblocked (rejectTypeCallee_keeps frame.toFrame _) fun _ t _ ht => ?_
      refine .later ht (checkExpr_keeps frame _ .read t) fun ty u _ hu => ?_
      split
      · refine .later hu (.require frame.toFrame rfl) fun _ _ _ hv => ?_
        exact .first (complains_checkArgs ih hmem _ hv) fun _ _ _ => .pure frame.toFrame _
      · exact .first (complains_checkLooseArgs ih hmem hu) fun _ _ _ => .pure frame.toFrame _
      · exact .fail
  | object h ih =>
      rw [checkExpr]
      refine .later hblocked (namedModule_keeps frame.toFrame _) fun found t hrun ht => ?_
      obtain rfl := namedModule_of_mentions h hblocked hrun
      exact .first (ih .read t ht) fun _ _ _ => .memberType frame.toFrame _ _
  | indexed h ih =>
      rw [checkExpr]
      refine .first (ih .read s hblocked) fun _ t _ => ?_
      exact .seq frame.toFrame (checkExpr_keeps frame _ .read t) fun _ _ _ =>
        .elementType frame.toFrame _ _ _ _
  | position h ih =>
      rw [checkExpr]
      refine .later hblocked (checkExpr_keeps frame _ .read s) fun _ t _ ht => ?_
      exact .first (ih .read t ht) fun _ _ _ => .elementType frame.toFrame _ _ _ _
  | init hmem h ih =>
      rw [checkExpr]
      refine .later hblocked (.lookup frame.toFrame _ _) fun symbol t _ ht => ?_
      split
      · exact .fail
      · refine .first (complains_checkInits ih hmem [] ht) fun _ _ _ => ?_
        exact .seq frame.toFrame (reportMissing_keeps frame.toFrame _ _ _ _) fun _ _ _ =>
          .pure frame.toFrame _
  | converted h ih =>
      rw [checkExpr]
      refine .first (ih .read s hblocked) fun _ t _ => ?_
      refine .seq frame.toFrame (.rule frame.toFrame fun _ h => Table.resolve_error h) fun _ _ _ => ?_
      exact .seq frame.toFrame (.judge frame.toFrame fun _ h => Ty.convert_error h) fun _ _ _ =>
        .pure frame.toFrame _
  | rawArg hmem h ih =>
      exact complains_raw ih hmem use hblocked
  | body htoken h ih =>
      obtain ⟨opened, t, hopen, hopened⟩ := openAccess_opens _ _ _ _ env s
      rw [checkExpr]
      exact .withAccess hopen hopened (ih _ t (hblocked.opened hopened htoken))

end Check

namespace Linked

open Check

/-- A variable is moved or held if and only if no expression that mentions it is accepted, whatever
becomes of the value of that expression. -/
theorem blocked_iff_mentions_rejected (settings : Settings) (linked : Linked) {s : State}
    (hs : Reachable settings linked s) {name : String} {symbol : Symbol}
    (hfind : s.table.find? name = some symbol) (hvar : symbol.isVar = true) :
    (symbol.isMoved = true ∨ s.ledger.isHeld symbol.key = true) ↔
      ∀ expr : Expr, expr.Mentions name → ∀ use,
        Complains (linked.env settings) (checkExpr expr use) s := by
  constructor
  · intro hblocked expr hmentions use
    exact complains_of_mentions hmentions use s ⟨hs.sound, symbol, hfind, hvar, hblocked⟩
  · -- Read as it stands, the variable is refused for no other reason.
    intro hrejected
    by_contra hfree
    rw [not_or, Bool.not_eq_true, Bool.not_eq_true] at hfree
    have hread := (hs.coherent.checkUse_read hfind).2 hfree
    have hcomplains := hrejected (.ident {} name) .ident .read
    rw [Complains, checkExpr, checkIdent_of_isVar _ _ hfind hvar, hread] at hcomplains
    rcases hcomplains with ⟨diagnostic, herror⟩ | ⟨new, hne, hnew⟩
    · cases herror
    · exact hne (List.self_eq_append_right.1 hnew)

/-- While `x` is viewed as `v`, one cannot view `v` in turn and add `x` to it. -/
theorem blocked_iff_mentions_rejected_viewed :
    let x : Symbol := { Symbol.var "x" (.num .s64) false {} with depth := 2 }
    let sum : Expr := .access {} .viewing ⟨"v", {}⟩ ⟨"w", {}⟩
      (.binary {} (.ident {} "w") .add (.paren {} (.ident {} "x")))
    Reachable {} viewing viewed ∧ viewed.table.find? "x" = some x ∧ x.isVar = true ∧
      viewed.ledger.isHeld x.key = true ∧ sum.Mentions "x" ∧
      Complains (viewing.env {}) (checkExpr sum .read) viewed :=
  ⟨reachable_viewed, rfl, rfl, rfl, .body (by decide) (.right (.paren .ident)),
    (blocked_iff_mentions_rejected {} viewing reachable_viewed rfl rfl).1 (.inr rfl) _
      (.body (by decide) (.right (.paren .ident))) .read⟩

end Linked

end Custody
